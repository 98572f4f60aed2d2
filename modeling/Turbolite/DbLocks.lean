import Turbolite.Lib.RangeLocks
import Turbolite.Lib.Runs

/-!
# Turbolite.DbLocks

The locks of the main database file (`TurboliteHandle::lock`). SQLite's five levels are byte-range
locks of a lock file, and every `try_lock` and every dropped guard is a call of its own, between two of
which other handles, in this process or another, do theirs. A handle keeps its guards by name and its
level apart from them; the level changes only when a call returns `Ok(true)`.
-/

namespace Turbolite

open RangeLocks Runs

/-- The lock states of SQLite. -/
inductive LockKind where
  | none
  | shared
  | reserved
  | pending
  | exclusive
  deriving DecidableEq

/-- `PENDING_BYTE`. -/
def pendingByte : Nat := 0x40000000

/-- `RESERVED_BYTE`. -/
def reservedByte : Nat := pendingByte + 1

/-- `SHARED_FIRST`. -/
def sharedFirst : Nat := pendingByte + 2

/-- `SHARED_SIZE`. -/
def sharedSize : Nat := 510

/-- The guards in `active_db_locks`, and the one on the pending byte that a call for Shared takes and
drops at once. -/
inductive DbGuard where
  | probe
  | shared
  | reserved
  | pending
  | exclusive
  deriving DecidableEq

/-- The bytes of a guard and how they are locked. -/
def DbGuard.guard : DbGuard → Guard
  | probe => ⟨.shared, pendingByte, 1⟩
  | shared => ⟨.shared, sharedFirst, 1⟩
  | reserved => ⟨.exclusive, reservedByte, 1⟩
  | pending => ⟨.exclusive, pendingByte, 1⟩
  | exclusive => ⟨.exclusive, sharedFirst, sharedSize⟩

namespace DbLocks

/-- Where a handle is in its call of `lock`: what it does next. -/
inductive Phase where
  | idle
  /-- `active_db_locks.clear()`, on the way to None or to Shared -/
  | clear (shared : Bool)
  | probePending
  | dropProbe
  | takeShared
  | takeReserved
  | takePending
  | exclusivePending
  | dropShared
  | takeRange
  | restoreShared
  deriving DecidableEq

/-- The lock of a handle, its guards and what it is doing. -/
structure HandleLocks where
  lock : LockKind := .none
  active : List DbGuard := []
  phase : Phase := .idle

/-- What a call for a level does first; `none` when it returns at once. A call whose publish fails
returns before that too. -/
def HandleLocks.request (l : HandleLocks) (kind : LockKind) : Option Phase :=
  if l.lock = kind then none
  else
    match kind with
    | .none => some (.clear false)
    | .shared => some (.clear true)
    | .reserved => if l.lock = .none then none else some .takeReserved
    | .pending => if l.lock = .none ∨ l.lock = .shared then none else some .takePending
    | .exclusive =>
      if l.lock = .none then none
      else if .pending ∈ l.active then some .dropShared
      else some .exclusivePending

/-- The lock that the next call of the phase tries to take. -/
def Phase.tries : Phase → Option DbGuard
  | probePending => some .probe
  | takeShared => some .shared
  | takeReserved => some .reserved
  | takePending => some .pending
  | exclusivePending => some .pending
  | takeRange => some .exclusive
  | restoreShared => some .shared
  | idle => none
  | clear _ => none
  | dropProbe => none
  | dropShared => none

/-- After a lock was granted: the level of a call that returns `Ok(true)`, or the next phase. -/
def Phase.granted : Phase → LockKind ⊕ Phase
  | probePending => .inr .dropProbe
  | takeShared => .inl .shared
  | takeReserved => .inl .reserved
  | takePending => .inl .pending
  | exclusivePending => .inr .dropShared
  | takeRange => .inl .exclusive
  -- the call returns `Ok(false)`
  | restoreShared => .inr .idle
  | phase => .inr phase

/-- After a lock was refused: only the shared guard is taken again. -/
def Phase.refused : Phase → Phase
  | takeRange => .restoreShared
  | _ => .idle

section

variable {P H : Type} [DecidableEq P] [DecidableEq H]

/-- The lock table of the operating system and the handles. -/
structure State (P H : Type) where
  table : Table P := fun _ => []
  handles : H → HandleLocks := fun _ => {}

/-- The steps of the calls of `lock`. -/
inductive Event (H : Type) where
  /-- a call of `lock` begins -/
  | request (h : H) (kind : LockKind)
  /-- `clear` drops one guard -/
  | drop (h : H) (g : DbGuard)
  /-- the next call to the operating system -/
  | advance (h : H)
  /-- that call fails with an error other than `WouldBlock` -/
  | fail (h : H)
  /-- the handle is dropped, with its guards and its descriptor of the lock file -/
  | close (h : H)

variable (proc : H → P)

/-- One handle changes. -/
def State.setHandle (s : State P H) (h : H) (l : HandleLocks) : State P H :=
  { s with handles := Function.update s.handles h l }

/-- A guard of the handle is dropped. -/
def State.dropGuard (s : State P H) (h : H) (g : DbGuard) : State P H :=
  { s with
    table := s.table.unlock (proc h) g.guard.range
    handles := Function.update s.handles h
      { s.handles h with active := (s.handles h).active.erase g } }

/-- A guard goes into `active_db_locks`; one that is there under the same name is dropped. -/
def State.insertGuard (s : State P H) (h : H) (g : DbGuard) : State P H :=
  let t := s.table.lock (proc h) g.guard.mode g.guard.range
  if g ∈ (s.handles h).active then { s with table := t.unlock (proc h) g.guard.range }
  else
    { s with
      table := t
      handles := Function.update s.handles h
        { s.handles h with active := g :: (s.handles h).active } }

/-- One handle goes on to another phase. -/
def State.setPhase (s : State P H) (h : H) (phase : Phase) : State P H :=
  s.setHandle h { s.handles h with phase := phase }

/-- The phase is left after its lock was granted. -/
def State.finish (s : State P H) (h : H) : LockKind ⊕ Phase → State P H
  | .inl kind => s.setHandle h { s.handles h with lock := kind, phase := .idle }
  | .inr phase => s.setPhase h phase

/-- The next call of a handle. -/
def advance (s : State P H) (h : H) : Option (State P H) :=
  let l := s.handles h
  match l.phase with
  | .idle => none
  | .clear shared =>
    if l.active = [] then
      some (if shared then s.setPhase h .probePending
        else s.setHandle h { l with lock := .none, phase := .idle })
    else none
  | .dropProbe => some ((s.dropGuard proc h .probe).setPhase h .takeShared)
  | .dropShared =>
    some ((if .shared ∈ l.active then s.dropGuard proc h .shared else s).setPhase h .takeRange)
  | phase =>
    (phase.tries).map fun g =>
      if s.table.Grants (proc h) g.guard.mode g.guard.range then
        (s.insertGuard proc h g).finish h phase.granted
      else s.setPhase h phase.refused

/-- The next state; none where the step does not apply. -/
def step (s : State P H) : Event H → Option (State P H)
  | .request h kind =>
    if (s.handles h).phase = .idle then
      match (s.handles h).request kind with
      | none => some s
      | some phase => some (s.setPhase h phase)
    else none
  | .drop h g =>
    match (s.handles h).phase with
    | .clear _ => if g ∈ (s.handles h).active then some (s.dropGuard proc h g) else none
    | _ => none
  | .advance h => advance proc s h
  | .fail h => if (s.handles h).phase.tries.isSome then some (s.setPhase h .idle) else none
  | .close h =>
    if (s.handles h).phase = .idle then
      some { s with
        table := s.table.closeFile (proc h)
        handles := Function.update s.handles h {} }
    else none

/-- The level a handle is at. One that gives its locks up, for None or for Shared, is at none until
the call returns. -/
def State.levelOf (s : State P H) (h : H) : LockKind :=
  match (s.handles h).phase with
  | .clear _ | .probePending | .dropProbe | .takeShared => .none
  | _ => (s.handles h).lock

end

end DbLocks

end Turbolite
