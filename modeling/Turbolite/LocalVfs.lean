import Turbolite.Lib.Texts
import Turbolite.LocalDb

/-!
# Turbolite.LocalVfs

The VFS registrations of local databases (`open_local_with` and `register_or_reuse_vfs` in
`local/mod.rs`). A registration is reused under a text that names the displayed path and the options,
with of the key only whether there is one. `vfs_isolated_iff` says for which calls of a process each
connection is served with its own path and options.
-/

namespace Turbolite.LocalVfs

open LocalFormat Texts

/-! ### Texts of paths -/

/-- The number of continuation bytes after a leading byte, and the range of the first of them. -/
def leader (b : UInt8) : Option (Nat × UInt8 × UInt8) :=
  if 0xC2 ≤ b ∧ b ≤ 0xDF then some (1, 0x80, 0xBF)
  else if b = 0xE0 then some (2, 0xA0, 0xBF)
  else if b = 0xED then some (2, 0x80, 0x9F)
  else if 0xE1 ≤ b ∧ b ≤ 0xEF then some (2, 0x80, 0xBF)
  else if b = 0xF0 then some (3, 0x90, 0xBF)
  else if 0xF1 ≤ b ∧ b ≤ 0xF3 then some (3, 0x80, 0xBF)
  else if b = 0xF4 then some (3, 0x80, 0x8F)
  else none

/-- The continuation bytes that follow a leading byte, as far as they are well-formed. -/
def continuation (n : Nat) (lo hi : UInt8) (rest : Bytes) : Bytes :=
  match rest.take n with
  | [] => []
  | x :: xs => if lo ≤ x ∧ x ≤ hi then x :: xs.takeWhile fun x => 0x80 ≤ x ∧ x ≤ 0xBF else []

/-- The next character, or none for a malformed sequence, and how many bytes it takes. -/
def nextChar : Bytes → Option Char × Nat
  | [] => (none, 0)
  | b :: rest =>
    if b < 0x80 then (some (Char.ofNat b.toNat), 1)
    else
      match leader b with
      | none => (none, 1)
      | some (n, lo, hi) =>
        let tail := continuation n lo hi rest
        if tail.length = n then
          (some (Char.ofNat (tail.foldl (fun v x => v * 64 + x.toNat % 64) (b.toNat % 2 ^ (6 - n)))),
            n + 1)
        else (none, tail.length + 1)

/-- The characters of `fuel` bytes at most, none for each malformed sequence. -/
def decodeUtf8 : (fuel : Nat) → Bytes → List (Option Char)
  | 0, _ => []
  | _, [] => []
  | fuel + 1, b :: bs =>
    let (c, n) := nextChar (b :: bs)
    c :: decodeUtf8 fuel ((b :: bs).drop n)

/-- `String::from_utf8_lossy`: a replacement character for each malformed sequence. -/
def fromUtf8Lossy (bytes : Bytes) : String :=
  .ofList ((decodeUtf8 bytes.length bytes).map (·.getD (Char.ofNat 0xFFFD)))

/-- `str::from_utf8`. -/
def fromUtf8 (bytes : Bytes) : Option String :=
  ((decodeUtf8 bytes.length bytes).mapM id).map String.ofList

/-! ### Paths -/

/-- `std::path::Component`. -/
inductive Component where
  | rootDir
  | curDir
  | parentDir
  | normal (name : Bytes)
  deriving DecidableEq

/-- A clean `PathBuf`. -/
structure PathBuf where
  rooted : Bool
  names : List Bytes
  deriving DecidableEq

namespace PathBuf

/-- `PathBuf::push` of a normal component. -/
def push (p : PathBuf) (name : Bytes) : PathBuf := { p with names := p.names ++ [name] }

/-- `PathBuf::pop`. -/
def pop (p : PathBuf) : PathBuf := { p with names := p.names.dropLast }

/-- `Path::parent`. -/
def parent (p : PathBuf) : Option PathBuf := if p.names = [] then none else some p.pop

/-- The path as the operating system has it. -/
def bytes (p : PathBuf) : Bytes :=
  (if p.rooted then [0x2F] else []) ++ List.intercalate [0x2F] p.names

/-- `Path::display`. -/
def display (p : PathBuf) : String := fromUtf8Lossy p.bytes

/-- `Path::to_str`. -/
def toStr (p : PathBuf) : Option String := fromUtf8 p.bytes

end PathBuf

/-- `absolutize`; `currentDir` is the directory of the process, or `.` when it has none. -/
def absolutize (currentDir path : List Component) : PathBuf :=
  let base := if path.head? = some .rootDir then path else currentDir ++ path
  base.foldl (fun out comp =>
    match comp with
    | .curDir => out
    | .parentDir => out.pop
    | .rootDir => ⟨true, []⟩
    | .normal name => out.push name) ⟨false, []⟩

/-! ### Options -/

/-- The options of a local database. -/
structure LocalOptions where
  pageSize : Nat
  compress : Bool
  level : Int
  encryptionKey : Option Bytes
  deriving DecidableEq

/-- `PageCodec`. -/
structure PageCodec where
  compress : Bool
  level : Int
  key : Option Bytes
  deriving DecidableEq

/-- The codec that the options ask for. -/
def LocalOptions.codec (o : LocalOptions) : PageCodec := ⟨o.compress, o.level, o.encryptionKey⟩

/-- Why a local VFS is not made. -/
inductive LocalError where
  | tieredSidecarPresent (path : PathBuf)
  | io (error : IoError)
  | sqlite (code : Int)
  deriving DecidableEq

/-! ### The VFS -/

/-- A registered VFS. -/
structure LocalCompressedVfs where
  path : PathBuf
  codec : PageCodec
  pageSize : PageSize
  deriving DecidableEq

/-- `LocalHandle`: the database, or a file in memory. -/
inductive LocalHandle where
  | main (handle : LocalDb.MainHandle)
  | mem

namespace LocalCompressedVfs

variable (v : LocalCompressedVfs)

/-- `is_main`. -/
def isMain (currentDir db : List Component) : Bool := absolutize currentDir db = v.path

/-- What `MainHandle::open` is given, with zstd at each level. -/
def options (zstd : Int → Codecs) : LocalDb.LocalOptions :=
  ⟨⟨zstd v.codec.level, v.codec.compress, v.codec.key⟩, v.pageSize⟩

/-- `open_inner`, over the files of the machine. -/
def openInner (zstd : Int → Codecs) (files : PathBuf → Option Bytes)
    (currentDir db : List Component) (isMainDb : Bool) : IoResult LocalHandle :=
  if isMainDb && v.isMain currentDir db then do
    let main ← LocalDb.MainHandle.open (v.options zstd) (files v.path)
    .ok (.main main)
  else .ok .mem

end LocalCompressedVfs

/-- The VFSs of a process: what `REGISTRY` and SQLite hold, and `COUNTER`. -/
structure Process where
  registry : HMap String String := ∅
  vfsList : HMap String LocalCompressedVfs := ∅
  counter : Nat := 0

/-- `unique_vfs_name`, without taking the number. -/
def uniqueVfsName (pid n : Nat) : String := s!"turbolite_local_{pid}_{n}"

/-- The text a registration is kept under. -/
def identity (path : PathBuf) (o : LocalOptions) : String :=
  s!"{path.display}|{o.pageSize}|{o.compress}|{o.level}|{o.encryptionKey.isSome}"

/-- `register_or_reuse_vfs`; `fault` is the code of a refused registration. -/
def registerOrReuseVfs (pid : Nat) (p : Process) (path : PathBuf) (o : LocalOptions)
    (pageSize : PageSize) (fault : Option Int) : Process × Except LocalError String :=
  let key := identity path o
  match p.registry.lookup key with
  | some name => (p, .ok name)
  | none =>
    let vfsName := uniqueVfsName pid p.counter
    let p := { p with counter := p.counter + 1 }
    match fault with
    | some code => (p, .error (.io (.io .other s!"sqlite code {code}")))
    | none =>
      ({ p with
          registry := p.registry.insert key vfsName
          vfsList := p.vfsList.insert vfsName ⟨path, o.codec, pageSize⟩ }, .ok vfsName)

/-! ### Opening -/

/-- The file system as a call sees it. -/
structure FsView where
  isDir : PathBuf → Bool
  «exists» : PathBuf → Bool

/-- `TIERED_SIDECAR`, `local_state.msgpack`. -/
def tieredSidecar : Bytes := "local_state.msgpack".toUTF8.data.toList

/-- `refuse_if_tiered`. -/
def refuseIfTiered (fs : FsView) (path : PathBuf) : Except LocalError Unit :=
  if fs.isDir path && fs.exists (path.push tieredSidecar) then .error (.tieredSidecarPresent path)
  else
    match path.parent with
    | none => .ok ()
    | some dir =>
      let sidecar := dir.push tieredSidecar
      if fs.exists sidecar then .error (.tieredSidecarPresent sidecar) else .ok ()

/-- A call of `open_local_with`, with what it meets: directory and files, and the codes of a
registration and of an open that SQLite refuses. -/
structure Call where
  currentDir : List Component
  path : List Component
  options : LocalOptions
  fs : FsView
  registerFault : Option Int := none
  openFault : Option Int := none

/-- The path a call is about. -/
def Call.target (c : Call) : PathBuf := absolutize c.currentDir c.path

/-- `rusqlite::Connection`: the name of its VFS and the path it was opened with. -/
structure Connection where
  vfsName : String
  path : String
  deriving DecidableEq

/-- `open_local_with`. -/
def openLocalWith (pid : Nat) (p : Process) (c : Call) : Process × Except LocalError Connection :=
  let path := c.target
  match refuseIfTiered c.fs path with
  | .error e => (p, .error e)
  | .ok () =>
    if h : minPageSize ≤ c.options.pageSize ∧ c.options.pageSize ≤ maxPageSize then
      match registerOrReuseVfs pid p path c.options ⟨c.options.pageSize, h.1, h.2⟩ c.registerFault with
      | (p, .error e) => (p, .error e)
      | (p, .ok vfsName) =>
        -- the VFS stays registered when the path has no text
        match path.toStr with
        | none => (p, .error (.io (.io .invalidInput "non-utf8 path")))
        | some text =>
          match c.openFault with
          | some code => (p, .error (.sqlite code))
          | none => (p, .ok ⟨vfsName, text⟩)
    else (p, .error (.io (.io .invalidInput "page_size out of range")))

/-- The process, and the connections it was given with the calls that asked for them. -/
structure State where
  process : Process := {}
  opened : List (Call × Connection) := []

/-- One call. -/
def step (pid : Nat) (s : State) (c : Call) : State :=
  match openLocalWith pid s.process c with
  | (p, .error _) => { s with process := p }
  | (p, .ok connection) => { process := p, opened := s.opened ++ [(c, connection)] }

/-- The state after a sequence of calls. -/
def after (pid : Nat) (calls : List Call) : State := calls.foldl (step pid) {}

/-! ### Identities -/

theorem not_mem_bool {b : Bool} : '|' ∉ (toString b).toList := by
  cases b <;> decide

theorem not_mem_nat {n : Nat} : '|' ∉ (toString n).toList := by
  intro h
  have hdigit := isDigit_of_mem_repr (n := n) h
  revert hdigit
  decide

theorem not_mem_int {a : Int} : '|' ∉ (toString a).toList := by
  intro h
  have hchar := isDigit_of_mem_int_repr (a := a) h
  revert hchar
  decide

theorem bool_inj {a b : Bool} (h : toString a = toString b) : a = b := by
  revert h
  revert a b
  decide

/-- The identity names the displayed path and every option but the key. -/
theorem identity_inj {p q : PathBuf} {o o' : LocalOptions} (h : identity p o = identity q o') :
    p.display = q.display ∧ o.pageSize = o'.pageSize ∧ o.compress = o'.compress ∧
      o.level = o'.level ∧ o.encryptionKey.isSome = o'.encryptionKey.isSome := by
  obtain ⟨h, hkey⟩ := append_field_inj (c := '|') not_mem_bool not_mem_bool h
  obtain ⟨h, hlevel⟩ := append_field_inj (c := '|') not_mem_int not_mem_int h
  obtain ⟨h, hcompress⟩ := append_field_inj (c := '|') not_mem_bool not_mem_bool h
  obtain ⟨hpath, hsize⟩ := append_field_inj (c := '|') not_mem_nat not_mem_nat h
  exact ⟨hpath, nat_repr_inj hsize, bool_inj hcompress, int_repr_inj hlevel, bool_inj hkey⟩

/-! ### Whose registration a call uses -/

namespace Call

variable (c : Call)

/-- The identity of the VFS that the call asks for. -/
def identity : String := LocalVfs.identity c.target c.options

/-- The call gets as far as the registry. -/
def Admitted : Prop :=
  refuseIfTiered c.fs c.target = .ok () ∧
    minPageSize ≤ c.options.pageSize ∧ c.options.pageSize ≤ maxPageSize

instance : Decidable c.Admitted := inferInstanceAs (Decidable (_ ∧ _ ∧ _))

/-- With a registration the call gives a connection. -/
def Opens : Prop := c.Admitted ∧ c.target.toStr.isSome ∧ c.openFault = none

/-- The VFS has the path and the options of the call. -/
structure Owns (v : LocalCompressedVfs) : Prop where
  path : v.path = c.target
  codec : v.codec = c.options.codec
  pageSize : v.pageSize.val = c.options.pageSize

/-- The call registers this identity if nobody has. -/
def Registers (id : String) : Prop := c.Admitted ∧ c.registerFault = none ∧ c.identity = id

instance (id : String) : Decidable (c.Registers id) := inferInstanceAs (Decidable (_ ∧ _ ∧ _))

/-- The calls are for one database, under one key. -/
def SameTarget (d : Call) : Prop :=
  c.target = d.target ∧ c.options.encryptionKey = d.options.encryptionKey

end Call

instance (c d : Call) : Decidable (c.SameTarget d) := inferInstanceAs (Decidable (_ ∧ _))

/-- The call whose registration an identity has: the first that could register it. -/
def registrant (calls : List Call) (id : String) : Option Call :=
  calls.find? fun c => c.Registers id

/-- Every connection is served by a VFS with the path and the options of its own call. -/
def Isolated (s : State) : Prop :=
  ∀ c connection, (c, connection) ∈ s.opened →
    ∃ v, s.process.vfsList.lookup connection.vfsName = some v ∧ c.Owns v

theorem registrant_append (calls : List Call) (c : Call) (id : String) :
    registrant (calls ++ [c]) id =
      (registrant calls id).or (if c.Registers id then some c else none) := by
  rw [registrant, List.find?_append, registrant]
  by_cases h : c.Registers id
  · simp [h]
  · simp [h]

theorem identity_of_registrant {calls : List Call} {id : String} {o : Call}
    (h : registrant calls id = some o) : o.identity = id := by
  have hreg : o.Registers id := by simpa using List.find?_some h
  exact hreg.2.2

/-- A VFS of a call is a VFS of another with its identity when the calls are for one database. -/
theorem Call.Owns.iff_sameTarget {v : LocalCompressedVfs} {o c : Call} (h : o.Owns v)
    (hid : o.identity = c.identity) : c.Owns v ↔ o.SameTarget c := by
  obtain ⟨_, hsize, hcompress, hlevel, _⟩ := identity_inj hid
  constructor
  · intro hc
    have hcodec := h.codec.symm.trans hc.codec
    exact ⟨h.path.symm.trans hc.path, congrArg PageCodec.key hcodec⟩
  · intro ⟨htarget, hkey⟩
    refine ⟨h.path.trans htarget, ?_, h.pageSize.trans hsize⟩
    rw [h.codec, LocalOptions.codec, LocalOptions.codec, hcompress, hlevel, hkey]

/-! ### What one call does -/

theorem uniqueVfsName_inj {pid m n : Nat} (h : uniqueVfsName pid m = uniqueVfsName pid n) :
    m = n := by
  exact nat_repr_inj ((String.append_right_inj _).mp h)

/-- The registry maps every identity to the VFS of its registrant, and the names that are left are
free. -/
structure Registered (pid : Nat) (calls : List Call) (p : Process) : Prop where
  absent : ∀ id, registrant calls id = none → p.registry.lookup id = none
  present : ∀ id o, registrant calls id = some o → ∃ name v, p.registry.lookup id = some name ∧
    p.vfsList.lookup name = some v ∧ o.Owns v
  fresh : ∀ n, p.counter ≤ n → p.vfsList.lookup (uniqueVfsName pid n) = none

/-- No VFS is taken away or replaced. -/
def Process.Extends (p p' : Process) : Prop :=
  ∀ name v, p.vfsList.lookup name = some v → p'.vfsList.lookup name = some v

section

variable {pid : Nat} {calls : List Call} {p : Process} {c : Call}

/-- A call that adds no registration leaves the registry as it is for the calls so far. -/
theorem Registered.skip (h : Registered pid calls p)
    (hc : ∀ id, c.Registers id → (registrant calls id).isSome) :
    Registered pid (calls ++ [c]) p := by
  have hsame : ∀ id, registrant (calls ++ [c]) id = registrant calls id := by
    intro id
    rw [registrant_append]
    cases hr : registrant calls id with
    | some o => rfl
    | none =>
      have hno : ¬ c.Registers id := fun hreg => by simpa [hr] using hc id hreg
      rw [if_neg hno]
      rfl
  refine ⟨fun id => ?_, fun id => ?_, h.fresh⟩
  · rw [hsame]
    exact h.absent id
  · rw [hsame]
    exact h.present id

theorem registerOrReuseVfs_of_some {ps : PageSize} {name : String} {fault : Option Int}
    (h : p.registry.lookup c.identity = some name) :
    registerOrReuseVfs pid p c.target c.options ps fault = (p, .ok name) := by
  have hname : p.registry.lookup (LocalVfs.identity c.target c.options) = some name := h
  simp only [registerOrReuseVfs, hname]

/-- The process with a new VFS. -/
def Process.register (pid : Nat) (p : Process) (c : Call) (ps : PageSize) : Process where
  registry := p.registry.insert c.identity (uniqueVfsName pid p.counter)
  vfsList := p.vfsList.insert (uniqueVfsName pid p.counter) ⟨c.target, c.options.codec, ps⟩
  counter := p.counter + 1

theorem registerOrReuseVfs_of_none {ps : PageSize} (h : p.registry.lookup c.identity = none) :
    registerOrReuseVfs pid p c.target c.options ps none =
      (p.register pid c ps, .ok (uniqueVfsName pid p.counter)) := by
  have hname : p.registry.lookup (LocalVfs.identity c.target c.options) = none := h
  simp only [registerOrReuseVfs, hname]
  rfl

theorem registerOrReuseVfs_of_fault {ps : PageSize} {code : Int}
    (h : p.registry.lookup c.identity = none) :
    registerOrReuseVfs pid p c.target c.options ps (some code) =
      ({ p with counter := p.counter + 1 },
        .error (.io (.io .other s!"sqlite code {code}"))) := by
  have hname : p.registry.lookup (LocalVfs.identity c.target c.options) = none := h
  simp only [registerOrReuseVfs, hname]

/-- A new VFS takes a free name. -/
theorem Registered.extends_register (h : Registered pid calls p) {ps : PageSize} :
    p.Extends (p.register pid c ps) := by
  intro name v hv
  have hne : name ≠ uniqueVfsName pid p.counter := by
    intro heq
    rw [heq, h.fresh _ (Nat.le_refl _)] at hv
    cases hv
  simp only [Process.register, AList.lookup_insert_ne hne]
  exact hv

/-- With a new VFS the call is the registrant of its identity, and no other one changes. -/
theorem Registered.register (h : Registered pid calls p) {ps : PageSize}
    (hps : ps.val = c.options.pageSize) (hmine : registrant (calls ++ [c]) c.identity = some c)
    (hothers : ∀ id, id ≠ c.identity → registrant (calls ++ [c]) id = registrant calls id) :
    Registered pid (calls ++ [c]) (p.register pid c ps) where
  absent id hid := by
    have hne : id ≠ c.identity := by
      intro heq
      rw [heq, hmine] at hid
      cases hid
    rw [hothers id hne] at hid
    simp only [Process.register, AList.lookup_insert_ne hne]
    exact h.absent id hid
  present id o hid := by
    by_cases heq : id = c.identity
    · subst heq
      obtain rfl : c = o := Option.some.inj (hmine.symm.trans hid)
      exact ⟨_, _, AList.lookup_insert _, AList.lookup_insert _, ⟨rfl, rfl, hps⟩⟩
    · rw [hothers id heq] at hid
      obtain ⟨name, v, hname, hv, ho⟩ := h.present id o hid
      refine ⟨name, v, ?_, h.extends_register name v hv, ho⟩
      simp only [Process.register, AList.lookup_insert_ne heq]
      exact hname
  fresh n hn := by
    have hlt : p.counter + 1 ≤ n := hn
    have hne : uniqueVfsName pid n ≠ uniqueVfsName pid p.counter := by
      intro heq
      have hn' := uniqueVfsName_inj heq
      omega
    simp only [Process.register, AList.lookup_insert_ne hne]
    exact h.fresh n (Nat.le_of_succ_le hlt)

/-- The registry after an admitted call, and the name it gives: that of the registrant's VFS. -/
theorem registerOrReuseVfs_spec (h : Registered pid calls p) (hadm : c.Admitted) {ps : PageSize}
    (hps : ps.val = c.options.pageSize) {p' : Process} {r : Except LocalError String}
    (hreg : registerOrReuseVfs pid p c.target c.options ps c.registerFault = (p', r)) :
    Registered pid (calls ++ [c]) p' ∧ p.Extends p' ∧
      ((∃ e, r = .error e ∧ registrant (calls ++ [c]) c.identity = none) ∨
        ∃ name o v, r = .ok name ∧ registrant (calls ++ [c]) c.identity = some o ∧
          p'.vfsList.lookup name = some v ∧ o.Owns v) := by
  have honly : ∀ id, c.Registers id → id = c.identity := fun id hid => hid.2.2.symm
  cases ho : registrant calls c.identity with
  | some o =>
    -- the identity has a registration
    obtain ⟨name, v, hname, hv, howns⟩ := h.present _ o ho
    rw [registerOrReuseVfs_of_some hname] at hreg
    cases hreg
    refine ⟨h.skip fun id hid => ?_, fun _ _ hv => hv, .inr ⟨name, o, v, rfl, ?_, hv, howns⟩⟩
    · rw [honly id hid, ho]
      rfl
    · rw [registrant_append, ho]
      rfl
  | none =>
    have habsent := h.absent _ ho
    cases hf : c.registerFault with
    | some code =>
      rw [hf, registerOrReuseVfs_of_fault habsent] at hreg
      cases hreg
      have hno : ∀ id, ¬ c.Registers id := fun id hid => by simp [hid.2.1] at hf
      refine ⟨?_, fun _ _ hv => hv, .inl ⟨_, rfl, ?_⟩⟩
      · have hskip := h.skip (c := c) fun id hid => absurd hid (hno id)
        exact ⟨hskip.absent, hskip.present, fun n hn => h.fresh n (Nat.le_of_succ_le hn)⟩
      · rw [registrant_append, ho, if_neg (hno _)]
        rfl
    | none =>
      rw [hf, registerOrReuseVfs_of_none habsent] at hreg
      cases hreg
      have hmine : registrant (calls ++ [c]) c.identity = some c := by
        rw [registrant_append, ho, if_pos ⟨hadm, hf, rfl⟩]
        rfl
      refine ⟨h.register hps hmine fun id hne => ?_, h.extends_register, .inr ⟨_, c, _, rfl, hmine,
        AList.lookup_insert _, ⟨rfl, rfl, hps⟩⟩⟩
      rw [registrant_append, if_neg fun hid => hne (honly id hid), Option.or_none]

/-- A call registers what it has to and gives, if it opens, a connection to its registrant's VFS. -/
theorem openLocalWith_spec (h : Registered pid calls p) {p' : Process}
    {r : Except LocalError Connection} (hopen : openLocalWith pid p c = (p', r)) :
    Registered pid (calls ++ [c]) p' ∧ p.Extends p' ∧
      ((∃ e, r = .error e ∧ (c.Opens → registrant (calls ++ [c]) c.identity = none)) ∨
        ∃ connection o v, r = .ok connection ∧ c.Opens ∧
          registrant (calls ++ [c]) c.identity = some o ∧
          p'.vfsList.lookup connection.vfsName = some v ∧ o.Owns v) := by
  have hrefused : ¬ c.Admitted → Registered pid (calls ++ [c]) p := fun hno =>
    h.skip fun id hid => absurd hid.1 hno
  simp only [openLocalWith] at hopen
  cases htiered : refuseIfTiered c.fs c.target with
  | error e =>
    have hno : ¬ c.Admitted := fun hadm => by simp [hadm.1] at htiered
    simp only [htiered] at hopen
    cases hopen
    exact ⟨hrefused hno, fun _ _ hv => hv, .inl ⟨_, rfl, fun hopens => absurd hopens.1 hno⟩⟩
  | ok u =>
    simp only [htiered] at hopen
    split at hopen
    · rename_i hsize
      have hadm : c.Admitted := ⟨htiered, hsize⟩
      cases hreg : registerOrReuseVfs pid p c.target c.options
          ⟨c.options.pageSize, hsize.1, hsize.2⟩ c.registerFault with
      | mk q r' =>
        obtain ⟨hregistered, hext, hname⟩ := registerOrReuseVfs_spec h hadm rfl hreg
        simp only [hreg] at hopen
        cases hname with
        | inl herror =>
          obtain ⟨e, rfl, hnone⟩ := herror
          cases hopen
          exact ⟨hregistered, hext, .inl ⟨_, rfl, fun _ => hnone⟩⟩
        | inr hok =>
          obtain ⟨name, o, v, rfl, ho, hv, howns⟩ := hok
          dsimp only at hopen
          cases htext : c.target.toStr with
          | none =>
            rw [htext] at hopen
            cases hopen
            refine ⟨hregistered, hext, .inl ⟨_, rfl, fun hopens => ?_⟩⟩
            have hsome := hopens.2.1
            simp [htext] at hsome
          | some text =>
            rw [htext] at hopen
            cases hfault : c.openFault with
            | some code =>
              rw [hfault] at hopen
              cases hopen
              exact ⟨hregistered, hext,
                .inl ⟨_, rfl, fun hopens => by simp [hopens.2.2] at hfault⟩⟩
            | none =>
              rw [hfault] at hopen
              cases hopen
              exact ⟨hregistered, hext,
                .inr ⟨_, o, v, rfl, ⟨hadm, by simp [htext], hfault⟩, ho, hv, howns⟩⟩
    · rename_i hsize
      have hno : ¬ c.Admitted := fun hadm => hsize hadm.2
      cases hopen
      exact ⟨hrefused hno, fun _ _ hv => hv, .inl ⟨_, rfl, fun hopens => absurd hopens.1 hno⟩⟩

end

/-! ### What every run of calls gives -/

/-- Where a call opens a connection, the call that registered its identity was for the same path and
key. -/
def OneTargetEach (calls : List Call) : Prop :=
  ∀ before c, before ++ [c] <+: calls → c.Opens →
    ∀ o, registrant (before ++ [c]) c.identity = some o → o.SameTarget c

theorem oneTargetEach_append (calls : List Call) (c : Call) :
    OneTargetEach (calls ++ [c]) ↔ OneTargetEach calls ∧
      (c.Opens → ∀ o, registrant (calls ++ [c]) c.identity = some o → o.SameTarget c) := by
  constructor
  · intro h
    exact ⟨fun before d hpre => h before d (hpre.trans (List.prefix_append _ _)),
      h calls c (List.prefix_refl _)⟩
  · intro ⟨hcalls, hc⟩ before d hpre
    cases List.prefix_concat_iff.mp hpre with
    | inl heq =>
      obtain ⟨rfl, hd⟩ := List.append_inj' heq rfl
      obtain rfl : d = c := by simpa using hd
      exact hc
    | inr hpre => exact hcalls before d hpre

/-- The registry serves the calls so far, and every connection has a VFS. -/
structure Inv (pid : Nat) (calls : List Call) (s : State) : Prop where
  registered : Registered pid calls s.process
  known : ∀ c connection, (c, connection) ∈ s.opened →
    (s.process.vfsList.lookup connection.vfsName).isSome

/-- The VFS of a connection stays what it is while the list of VFSs grows. -/
theorem lookup_eq_of_extends {p p' : Process} (h : p.Extends p') {name : String}
    (hsome : (p.vfsList.lookup name).isSome) : p'.vfsList.lookup name = p.vfsList.lookup name := by
  obtain ⟨v, hv⟩ := Option.isSome_iff_exists.mp hsome
  rw [hv, h name v hv]

/-- Connections that are there keep their VFS over a call. -/
theorem Inv.isolated_iff {pid : Nat} {calls : List Call} {s : State} (h : Inv pid calls s)
    {p' : Process} (hext : s.process.Extends p') :
    Isolated { s with process := p' } ↔ Isolated s := by
  refine forall₂_congr fun c connection => imp_congr_right fun hmem => ?_
  rw [lookup_eq_of_extends hext (h.known c connection hmem)]

/-- One call: its connection, if it gets one, is isolated exactly when its registrant was for the same
database and key. -/
theorem Inv.step {pid : Nat} {calls : List Call} {s : State} (h : Inv pid calls s) (c : Call) :
    Inv pid (calls ++ [c]) (step pid s c) ∧ (Isolated (step pid s c) ↔ Isolated s ∧
      (c.Opens → ∀ o, registrant (calls ++ [c]) c.identity = some o → o.SameTarget c)) := by
  cases hopen : openLocalWith pid s.process c with
  | mk p' r =>
    obtain ⟨hregistered, hext, hresult⟩ := openLocalWith_spec h.registered hopen
    have hknown : ∀ d connection, (d, connection) ∈ s.opened →
        (p'.vfsList.lookup connection.vfsName).isSome := by
      intro d connection hmem
      rw [lookup_eq_of_extends hext (h.known d connection hmem)]
      exact h.known d connection hmem
    cases hresult with
    | inl herror =>
      obtain ⟨e, rfl, hnone⟩ := herror
      have hstep : LocalVfs.step pid s c = { s with process := p' } := by simp only [LocalVfs.step, hopen]
      rw [hstep, h.isolated_iff hext]
      refine ⟨⟨hregistered, hknown⟩, fun hs => ⟨hs, fun hopens o ho => ?_⟩, fun hs => hs.1⟩
      rw [hnone hopens] at ho
      cases ho
    | inr hok =>
      obtain ⟨connection, o, v, rfl, hopens, ho, hv, howns⟩ := hok
      have hstep : LocalVfs.step pid s c =
          { process := p', opened := s.opened ++ [(c, connection)] } := by
        simp only [LocalVfs.step, hopen]
      have hid : o.identity = c.identity := identity_of_registrant ho
      have hmine : (∃ w, p'.vfsList.lookup connection.vfsName = some w ∧ c.Owns w) ↔
          o.SameTarget c := by
        rw [← howns.iff_sameTarget hid, hv]
        simp
      rw [hstep]
      refine ⟨⟨hregistered, fun d conn hmem => ?_⟩, ?_⟩
      · cases List.mem_append.mp hmem with
        | inl hold => exact hknown d conn hold
        | inr hnew =>
          obtain ⟨rfl, rfl⟩ : d = c ∧ conn = connection := by simpa using hnew
          simp [hv]
      · have hsplit : Isolated { process := p', opened := s.opened ++ [(c, connection)] } ↔
            Isolated { s with process := p' } ∧
              ∃ w, p'.vfsList.lookup connection.vfsName = some w ∧ c.Owns w := by
          simp only [Isolated, List.mem_append, List.mem_singleton, Prod.mk.injEq, or_imp,
            forall_and, and_imp]
          simp
        rw [hsplit, h.isolated_iff hext, hmine]
        refine and_congr_right fun _ => ⟨fun hsame _ o' ho' => ?_, fun hall => hall hopens o ho⟩
        rwa [← Option.some.inj (ho.symm.trans ho')]

theorem after_spec (pid : Nat) (calls : List Call) :
    Inv pid calls (after pid calls) ∧ (Isolated (after pid calls) ↔ OneTargetEach calls) := by
  induction calls using List.reverseRecOn with
  | nil =>
    refine ⟨⟨⟨fun _ _ => rfl, fun _ _ h => by simp [registrant] at h, fun _ _ => rfl⟩,
      fun _ _ h => by simp [after] at h⟩, fun _ before c hpre => ?_, fun _ _ _ h => by simp [after] at h⟩
    simp at hpre
  | append_singleton calls c ih =>
    obtain ⟨hinv, hiso⟩ := ih
    obtain ⟨hinv', hiso'⟩ := hinv.step c
    have hafter : after pid (calls ++ [c]) = step pid (after pid calls) c := by
      simp [after, List.foldl_append]
    rw [hafter, oneTargetEach_append, ← hiso]
    exact ⟨hinv', hiso'⟩

/-- After any sequence of calls in one process every connection is served by a VFS with its own path,
page size, compression and key exactly when each call that opened one found its identity registered,
if at all, by a call for the same path and key. -/
theorem vfs_isolated_iff (pid : Nat) (calls : List Call) :
    Isolated (after pid calls) ↔ OneTargetEach calls :=
  (after_spec pid calls).2

/-! ### What a connection opens -/

/-- The components of a clean path. -/
def PathBuf.components (p : PathBuf) : List Component :=
  (if p.rooted then [.rootDir] else []) ++ p.names.map .normal

/-- A clean path from the root is its own absolute form. -/
theorem absolutize_components (currentDir : List Component) {p : PathBuf} (h : p.rooted = true) :
    absolutize currentDir p.components = p := by
  have hnames : ∀ (names : List Bytes) (out : PathBuf),
      (names.map Component.normal).foldl (fun out comp =>
        match comp with
        | .curDir => out
        | .parentDir => out.pop
        | .rootDir => ⟨true, []⟩
        | .normal name => out.push name) out = { out with names := out.names ++ names } := by
    intro names
    induction names with
    | nil => simp
    | cons name names ih =>
      intro out
      rw [List.map_cons, List.foldl_cons, ih]
      simp [PathBuf.push]
  obtain ⟨rooted, names⟩ := p
  obtain rfl : rooted = true := h
  exact hnames names ⟨true, []⟩

/-- A connection served by its own VFS opens its own file, with its own options: what it reads and
writes goes through the key of its call. -/
theorem Call.Owns.openInner {c : Call} {v : LocalCompressedVfs} (h : c.Owns v)
    (hroot : c.target.rooted = true) (zstd : Int → Codecs) (files : PathBuf → Option Bytes)
    (currentDir : List Component) :
    v.openInner zstd files currentDir c.target.components true = (do
      let main ← LocalDb.MainHandle.open
        ⟨⟨zstd c.options.level, c.options.compress, c.options.encryptionKey⟩, v.pageSize⟩
        (files c.target)
      .ok (.main main)) := by
  have hmain : v.isMain currentDir c.target.components = true := by
    simp [LocalCompressedVfs.isMain, absolutize_components currentDir hroot, h.path]
  simp only [LocalCompressedVfs.openInner, hmain, Bool.and_self, if_true,
    LocalCompressedVfs.options, h.codec, h.path, LocalOptions.codec]

/-! ### Examples -/

namespace Example

/-- The default options with a key. -/
def options (key : Option Bytes) : LocalOptions := ⟨4096, true, 3, key⟩

/-- An empty machine. -/
def noFiles : FsView := ⟨fun _ => false, fun _ => false⟩

/-- A call with a name under the root. -/
def call (name : Bytes) (key : Option Bytes) : Call :=
  { currentDir := [.rootDir]
    path := [.normal name]
    options := options key
    fs := noFiles }

/-- The key of the first tenant. -/
def alice : Bytes := List.replicate 32 1

/-- The key of the second tenant. -/
def bob : Bytes := List.replicate 32 2

/-- A name of one byte that is no text. -/
def byte : Bytes := [0xFF]

/-- The name it is displayed as. -/
def replacement : Bytes := [0xEF, 0xBF, 0xBD]

/-- A call of the first tenant. -/
def first : Call := call [0x61] (some alice)

/-- The same database under another key. -/
def second : Call := call [0x61] (some bob)

/-- A call of the second tenant. -/
def other : Call := call [0x62] (some bob)

theorem of_all {calls : List Call} {c : Call}
    (h : (registrant calls c.identity).all (fun o => o.SameTarget c) = true) :
    ∀ o, registrant calls c.identity = some o → o.SameTarget c := by
  intro o ho
  simpa [ho] using h

/-- A call that opens under the registration of another target is not isolated. -/
theorem not_isolated (before : List Call) {c : Call} (o : Call) (hopens : c.Opens)
    (ho : registrant (before ++ [c]) c.identity = some o) (hne : ¬ o.SameTarget c) :
    ¬ Isolated (after 1 (before ++ [c])) := by
  intro h
  exact hne ((after_spec 1 _).2.mp h before c (List.prefix_refl _) hopens o ho)

end Example

open Example

/-- Two databases with two keys, one of them opened twice. -/
example : Isolated (after 1 [first, other, first]) := by
  refine (after_spec 1 ([] ++ [first] ++ [other] ++ [first])).2.mpr ?_
  simp only [oneTargetEach_append]
  refine ⟨⟨⟨fun before c hpre => by simp at hpre, fun _ => of_all ?_⟩, fun _ => of_all ?_⟩,
    fun _ => of_all ?_⟩
  · decide +kernel
  · decide +kernel
  · decide +kernel

/-- The second key is not used: the connection is served with the first. And a call that was refused
because its path is no text leaves a VFS behind for a path that is displayed the same, whose database
is then a file in memory. -/
theorem vfs_shared :
    (¬ Isolated (after 1 [first, second]) ∧
      ∃ connection v, (second, connection) ∈ (after 1 [first, second]).opened ∧
        (after 1 [first, second]).process.vfsList.lookup connection.vfsName = some v ∧
        v.codec.key = some alice) ∧
    ¬ Isolated (after 1 [call byte none, call replacement none]) ∧
      ∃ connection v, (call replacement none, connection) ∈
          (after 1 [call byte none, call replacement none]).opened ∧
        (after 1 [call byte none, call replacement none]).process.vfsList.lookup
          connection.vfsName = some v ∧
        ∀ zstd files currentDir,
          v.openInner zstd files currentDir (call replacement none).target.components true =
            .ok .mem := by
  refine ⟨⟨?_, ⟨"turbolite_local_1_0", "/a"⟩, ⟨first.target, first.options.codec, ⟨4096, by decide, by decide⟩⟩,
    ?_, ?_, rfl⟩, ?_, ⟨"turbolite_local_1_0", "/\ufffd"⟩,
    ⟨(call byte none).target, (options none).codec, ⟨4096, by decide, by decide⟩⟩, ?_, ?_, ?_⟩
  · refine not_isolated [first] first ⟨by decide +kernel, by decide +kernel, rfl⟩ ?_ ?_
    · exact List.find?_cons_of_pos (by decide +kernel)
    · decide
  · exact List.mem_cons_of_mem (first, Connection.mk "turbolite_local_1_0" "/a")
      List.mem_cons_self
  · decide +kernel
  · refine not_isolated [call byte none] (call byte none)
      ⟨by decide +kernel, by decide +kernel, rfl⟩ ?_ ?_
    · exact List.find?_cons_of_pos (by decide +kernel)
    · decide
  · exact List.mem_cons_self
  · decide +kernel
  · intro zstd files currentDir
    have hother : LocalCompressedVfs.isMain ⟨(call byte none).target, (options none).codec,
        ⟨4096, by decide, by decide⟩⟩ currentDir (call replacement none).target.components = false := by
      simp only [LocalCompressedVfs.isMain, absolutize_components currentDir
        (show (call replacement none).target.rooted = true from rfl)]
      decide
    simp [LocalCompressedVfs.openInner, hother]

end Turbolite.LocalVfs
