import Turbolite.Lib.RangeLocks
import Turbolite.Lib.Runs

/-!
# Turbolite.WalLocks

The locks of the WAL index (`FileWalIndex`). A slot is locked twice: in a table that the connections of
a process share, under a mutex, and then as a byte of the `-shm` file, for the other processes. A call
goes through the table for all of its slots first and then through the file; other connections, in this
process or another, do theirs between any two of these steps.
-/

namespace Turbolite

open RangeLocks Runs

/-- `WAL_LOCK_OFFSET`. -/
def walLockOffset : Nat := 120

/-- The file lock of a slot. -/
def slotGuard (mode : Mode) (slot : Nat) : Guard := ⟨mode, walLockOffset + slot, 1⟩

/-- The lock states of a slot. -/
inductive WalIndexLock where
  | none
  | shared
  | exclusive
  deriving DecidableEq

/-- One entry of the table of a process. -/
structure SlotState (C : Type) where
  shared : List C := []
  exclusive : Option C := none

namespace SlotState

variable {C : Type} [DecidableEq C]

/-- `try_lock_inprocess`, of one slot. -/
def tryLock (st : SlotState C) (mode : Mode) (c : C) : Option (SlotState C) :=
  match mode with
  | .exclusive =>
    if (st.exclusive.isSome ∧ st.exclusive ≠ some c) ∨ st.shared.any (fun id => decide (id ≠ c)) then none
    else some { shared := st.shared.filter fun id => decide (id ≠ c), exclusive := some c }
  | .shared =>
    if st.exclusive.isSome ∧ st.exclusive ≠ some c then none
    else some { st with shared := st.shared.insert c }

/-- `unlock_inprocess`, of one slot. -/
def unlock (st : SlotState C) (c : C) : SlotState C where
  shared := st.shared.filter fun id => decide (id ≠ c)
  exclusive := if st.exclusive = some c then none else st.exclusive

end SlotState

namespace WalLocks

/-- Where a connection is in its call: what it does next. -/
inductive Phase where
  | idle
  /-- release: the table entry of the first slot -/
  | unlock (todo : List Nat)
  /-- release: the guard of the slot -/
  | dropGuard (slot : Nat) (todo : List Nat)
  /-- lock: the table, with the slots that are done -/
  | table (mode : Mode) (done todo : List Nat)
  /-- the table refused: the entries of the slots that were done -/
  | undoTable (todo : List Nat)
  /-- lock: the file, with the slots whose new guards are taken -/
  | file (mode : Mode) (fresh todo : List Nat)
  /-- the file refused: the table entries of the whole range, then the new guards -/
  | undoFile (todo fresh : List Nat)
  | dropFresh (fresh : List Nat)
  /-- `drop`: the table entries are gone, the guards and the file go next -/
  | closing
  | closed
  deriving DecidableEq

/-- A connection. `active` is `active_locks`; `holds` are the slots of the lock calls that returned
`Ok(true)`, until they are released. -/
structure Conn where
  active : List (Nat × Mode) := []
  phase : Phase := .idle
  holds : Nat → Option Mode := fun _ => none

/-- The lock file, the slot tables of the processes and the connections. -/
structure State (P C : Type) where
  file : Table P := fun _ => []
  table : P → Nat → SlotState C := fun _ _ => {}
  conns : C → Conn := fun _ => {}

/-- The steps of the calls of `lock`. -/
inductive Event (C : Type) where
  /-- a call of `lock` begins -/
  | request (c : C) (start stop : Nat) (lock : WalIndexLock)
  /-- the next step of the call -/
  | advance (c : C)
  /-- the next call to the operating system fails with another error than `WouldBlock` -/
  | fail (c : C)
  /-- `drop` begins -/
  | drop (c : C)

/-- The guard that `active_locks` has for the slot. -/
def Conn.guard? (k : Conn) (slot : Nat) : Option Mode := (k.active.find? (·.1 = slot)).map (·.2)

/-- `active_locks` without the slot. -/
def Conn.remove (k : Conn) (slot : Nat) : Conn :=
  { k with active := k.active.filter fun e => decide (e.1 ≠ slot) }

section

variable {P C : Type} [DecidableEq P] [DecidableEq C] (proc : C → P)

/-- One connection changes. -/
def State.setConn (s : State P C) (c : C) (k : Conn) : State P C :=
  { s with conns := Function.update s.conns c k }

/-- One slot changes. -/
def State.setSlot (s : State P C) (p : P) (slot : Nat) (st : SlotState C) : State P C :=
  { s with table := Function.update s.table p (Function.update (s.table p) slot st) }

/-- The connection's entry of a slot goes. -/
def State.unlockSlot (s : State P C) (c : C) (slot : Nat) : State P C :=
  s.setSlot (proc c) slot ((s.table (proc c) slot).unlock c)

/-- A guard on a slot is dropped. -/
def State.unlockFile (s : State P C) (c : C) (slot : Nat) : State P C :=
  { s with file := s.file.unlock (proc c) (slotGuard .shared slot).range }

/-- One slot of the second pass: the guard is taken, and the old guard of the slot is dropped. -/
def State.takeGuard (s : State P C) (c : C) (mode : Mode) (slot : Nat) : State P C :=
  let s' := { s with file := s.file.lock (proc c) mode (slotGuard mode slot).range }
  if ((s.conns c).guard? slot).isSome then s'.unlockFile proc c slot else s'

/-- The next step of a connection. -/
def advance (s : State P C) (c : C) : Option (State P C) :=
  let k := s.conns c
  match k.phase with
  | .idle => none
  | .unlock [] => some (s.setConn c { k with phase := .idle })
  | .unlock (slot :: todo) =>
    some ((s.unlockSlot proc c slot).setConn c
      { k with phase := .dropGuard slot todo, holds := Function.update k.holds slot none })
  | .dropGuard slot todo =>
    let s' := if (k.guard? slot).isSome then s.unlockFile proc c slot else s
    some (s'.setConn c { k.remove slot with phase := .unlock todo })
  | .table mode done [] => some (s.setConn c { k with phase := .file mode [] done })
  | .table mode done (slot :: todo) =>
    match (s.table (proc c) slot).tryLock mode c with
    | some st =>
      some ((s.setSlot (proc c) slot st).setConn c { k with phase := .table mode (done ++ [slot]) todo })
    | none => some (s.setConn c { k with phase := .undoTable done })
  | .undoTable [] => some (s.setConn c { k with phase := .idle })
  | .undoTable (slot :: todo) =>
    some ((s.unlockSlot proc c slot).setConn c { k with phase := .undoTable todo })
  | .file mode fresh [] =>
    some (s.setConn c
      { active := fresh.map (fun slot => (slot, mode)) ++ k.active
        phase := .idle
        holds := fun slot => if slot ∈ fresh then some mode else k.holds slot })
  | .file mode fresh (slot :: todo) =>
    if s.file.Grants (proc c) mode (slotGuard mode slot).range then
      some ((s.takeGuard proc c mode slot).setConn c
        { k.remove slot with phase := .file mode (fresh ++ [slot]) todo })
    else some (s.setConn c { k with phase := .undoFile (fresh ++ slot :: todo) fresh })
  | .undoFile [] fresh => some (s.setConn c { k with phase := .dropFresh fresh })
  | .undoFile (slot :: todo) fresh =>
    some ((s.unlockSlot proc c slot).setConn c { k with phase := .undoFile todo fresh })
  | .dropFresh [] => some (s.setConn c { k with phase := .idle })
  | .dropFresh (slot :: fresh) =>
    some ((s.unlockFile proc c slot).setConn c { k with phase := .dropFresh fresh })
  | .closing =>
    some { s with
      file := s.file.closeFile (proc c)
      conns := Function.update s.conns c { k with active := [], phase := .closed } }
  | .closed => none

/-- The next state; none where the step does not apply. -/
def step (s : State P C) : Event C → Option (State P C)
  | .request c start stop lock =>
    let k := s.conns c
    let slots := List.range' start (stop - start)
    if k.phase = .idle then
      some (s.setConn c { k with
        phase := match lock with
          | .none => .unlock slots
          | .shared => .table .shared [] slots
          | .exclusive => .table .exclusive [] slots })
    else none
  | .advance c => advance proc s c
  | .fail c =>
    match (s.conns c).phase with
    | .file _ fresh (slot :: todo) =>
      some (s.setConn c { s.conns c with phase := .undoFile (fresh ++ slot :: todo) fresh })
    | _ => none
  | .drop c =>
    let k := s.conns c
    if k.phase = .idle then
      some { s with
        table := Function.update s.table (proc c) fun slot => (s.table (proc c) slot).unlock c
        conns := Function.update s.conns c { k with phase := .closing, holds := fun _ => none } }
    else none

end

end WalLocks

end Turbolite
