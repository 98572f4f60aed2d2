import Turbolite.Lib.LockFile
import Turbolite.Lib.Runs

/-!
# Turbolite.LocalLock

The single-writer guard of the local database (`MainHandle::open` and its `Drop` in `local/mod.rs`), call
by call. An opener creates or opens the lock file, tries to lock it without waiting, and loads the
database; a closer persists, unlocks and then removes the lock file. Any number of connections do this
in any order, and a process may exit anywhere.

The lock is on the file and the openers know its name, so the guard holds as long as the two stay
together: nobody locks a file that has lost the name, and nobody removes the name of a locked file.
-/

namespace Turbolite.LocalLock

open LockFile Runs

/-- Where a connection is. -/
inductive Phase where
  | closed
  /-- the lock file is open -/
  | opened
  /-- locked, the database file is being read -/
  | locked
  /-- `open` returned the handle -/
  | live
  /-- in `drop`, persisted -/
  | persisted
  /-- in `drop`, unlocked -/
  | unlocked
  /-- in `drop`, the lock file removed -/
  | unlinked
  deriving DecidableEq, Repr

/-- The files at the path and where each connection is. -/
structure State where
  files : Files := {}
  phase : Nat → Phase := fun _ => .closed

/-- The system calls of the connections. -/
inductive Event where
  | openFile (c : Nat)
  | tryLock (c : Nat)
  /-- read and decode the database file -/
  | load (c : Nat) (ok : Bool)
  | persist (c : Nat)
  | unlock (c : Nat)
  /-- `remove_file` -/
  | unlink (c : Nat)
  /-- the descriptor of the lock file is closed -/
  | release (c : Nat)
  /-- the process is gone -/
  | exit (c : Nat)

/-- The connection gets there with these files. -/
def State.to (s : State) (c : Nat) (p : Phase) (f : Files) : State :=
  { files := f, phase := Function.update s.phase c p }

/-- One call; `none` when the connection is not there. A refused lock and a database that does not load
close the lock file again. -/
def step (s : State) : Event → Option State
  | .openFile c =>
    if s.phase c = .closed then some (s.to c .opened (s.files.openOrCreate c)) else none
  | .tryLock c =>
    if s.phase c = .opened then
      match s.files.tryLock c with
      | some f => some (s.to c .locked f)
      | none => some (s.to c .closed (s.files.close c))
    else none
  | .load c ok =>
    if s.phase c = .locked then
      if ok then some (s.to c .live s.files) else some (s.to c .closed (s.files.close c))
    else none
  | .persist c => if s.phase c = .live then some (s.to c .persisted s.files) else none
  | .unlock c =>
    if s.phase c = .persisted then some (s.to c .unlocked (s.files.unlock c)) else none
  | .unlink c => if s.phase c = .unlocked then some (s.to c .unlinked s.files.unlink) else none
  | .release c => if s.phase c = .unlinked then some (s.to c .closed (s.files.close c)) else none
  | .exit c => some (s.to c .closed (s.files.close c))

/-- A handle is there, and its drop has not given the lock back. -/
def Live (s : State) (c : Nat) : Prop := s.phase c = .live ∨ s.phase c = .persisted

/-- The lock is taken on the file that has the name, and the name is removed while no lock is held. -/
def Safe (s : State) : Event → Prop
  | .tryLock c => ∀ f, s.files.tryLock c = some f → s.files.file c = s.files.named
  | .unlink _ => ∀ i, s.files.owner i = none
  | _ => True

/-- Phases in which a connection holds its lock. -/
def Phase.holds : Phase → Bool
  | .locked | .live | .persisted => true
  | _ => false

/-- The connections that hold the lock hold it on the file at the path. -/
structure Inv (s : State) : Prop where
  sound : s.files.Sound
  anchored : s.files.Anchored
  held : ∀ c, (s.phase c).holds = true → s.files.Holds c
  shut : ∀ c, s.phase c = .closed → s.files.file c = none

section

variable {s s' : State} {c : Nat}

/-- A connection that moves on: what it does to the files keeps them sound and anchored, leaves the
locks of the others alone, and gives it what its new phase needs. -/
theorem Inv.to (h : Inv s) {p : Phase} {f : Files} (hsound : f.Sound) (hanchored : f.Anchored)
    (hothers : ∀ d, d ≠ c → (s.files.Holds d → f.Holds d) ∧ f.file d = s.files.file d)
    (hheld : p.holds = true → f.Holds c) (hshut : p = .closed → f.file c = none) :
    Inv (s.to c p f) where
  sound := hsound
  anchored := hanchored
  held d hd := by
    simp only [State.to, Function.update_apply] at hd ⊢
    split at hd
    · rename_i hdc
      rw [hdc]
      exact hheld hd
    · rename_i hdc
      exact (hothers d hdc).1 (h.held d hd)
  shut d hd := by
    simp only [State.to, Function.update_apply] at hd ⊢
    split at hd
    · rename_i hdc
      rw [hdc]
      exact hshut hd
    · rename_i hdc
      rw [(hothers d hdc).2]
      exact h.shut d hd

/-- Closing the lock file ends the connection. -/
theorem Inv.close (h : Inv s) : Inv (s.to c .closed (s.files.close c)) :=
  h.to h.sound.close h.anchored.close
    (fun d hd => ⟨fun hold => hold.close hd, by simp [Files.close, Files.unlock, hd]⟩) (by simp [Phase.holds])
    (by simp [Files.close])

theorem step_inv {e : Event} (h : Inv s) (hsafe : Safe s e) (hs : step s e = some s') : Inv s' := by
  cases e with
  | openFile c =>
    simp only [step, Option.ite_none_right_eq_some, Option.some.injEq] at hs
    obtain ⟨hphase, rfl⟩ := hs
    apply h.to (h.sound.openOrCreate (h.shut c hphase)) h.anchored.openOrCreate
    · intro d hd
      refine ⟨fun hold => hold.openOrCreate hd, ?_⟩
      unfold Files.openOrCreate
      cases s.files.named with
      | some i => simp [hd]
      | none => simp [hd]
    · simp [Phase.holds]
    · simp
  | tryLock c =>
    simp only [step, Option.ite_none_right_eq_some] at hs
    obtain ⟨hphase, hs⟩ := hs
    cases hlock : s.files.tryLock c with
    | some f =>
      simp only [hlock, Option.some.injEq] at hs
      subst hs
      -- the lock is granted on the file that the path names
      apply h.to (h.sound.tryLock hlock) (h.anchored.tryLock hlock (hsafe f hlock))
      · intro d _
        refine ⟨fun hold => hold.tryLock hlock, ?_⟩
        obtain ⟨i, -, -, rfl⟩ := Files.tryLock_inv hlock
        rfl
      · exact fun _ => Files.holds_tryLock hlock
      · simp
    | none =>
      simp only [hlock, Option.some.injEq] at hs
      subst hs
      exact h.close
  | load c ok =>
    simp only [step, Option.ite_none_right_eq_some] at hs
    obtain ⟨hphase, hs⟩ := hs
    cases ok with
    | true =>
      cases hs
      exact h.to h.sound h.anchored (fun d _ => ⟨id, rfl⟩)
        (fun _ => h.held c (by simp [hphase, Phase.holds])) (by simp)
    | false =>
      cases hs
      exact h.close
  | persist c =>
    simp only [step, Option.ite_none_right_eq_some, Option.some.injEq] at hs
    obtain ⟨hphase, rfl⟩ := hs
    exact h.to h.sound h.anchored (fun d _ => ⟨id, rfl⟩)
      (fun _ => h.held c (by simp [hphase, Phase.holds])) (by simp)
  | unlock c =>
    simp only [step, Option.ite_none_right_eq_some, Option.some.injEq] at hs
    obtain ⟨hphase, rfl⟩ := hs
    exact h.to h.sound.unlock h.anchored.unlock (fun d hd => ⟨fun hold => hold.unlock hd, rfl⟩)
      (by simp [Phase.holds]) (by simp)
  | unlink c =>
    simp only [step, Option.ite_none_right_eq_some, Option.some.injEq] at hs
    obtain ⟨hphase, rfl⟩ := hs
    exact h.to h.sound.unlink (Files.Anchored.unlink hsafe) (fun d _ => ⟨id, rfl⟩)
      (by simp [Phase.holds]) (by simp)
  | release c =>
    simp only [step, Option.ite_none_right_eq_some, Option.some.injEq] at hs
    obtain ⟨-, rfl⟩ := hs
    exact h.close
  | exit c =>
    cases hs
    exact h.close

theorem inv_init : Inv {} where
  sound := Files.sound_init
  anchored := Files.anchored_init
  held := by simp [Phase.holds]
  shut := by simp

theorem Inv.sole (h : Inv s) {d : Nat} (hc : Live s c) (hd : Live s d) : c = d := by
  have hholds : ∀ {e}, Live s e → (s.phase e).holds = true := by
    intro e he
    cases he with
    | inl he => rw [he]; rfl
    | inr he => rw [he]; rfl
  exact h.anchored.sole (h.held c (hholds hc)) (h.held d (hholds hd))

end

/-- In every run in which locks are taken on the named file only, and the name is removed while no lock
is held, at most one connection has a live handle at any time. -/
theorem single_writer {es : List Event} {s : State} (hr : run step {} es = some s)
    (hm : Meets step Safe {} es) {c d : Nat} (hc : Live s c) (hd : Live s d) : c = d :=
  (run_invariant (fun _ _ _ hi hsafe hs => step_inv hi hsafe hs) inv_init hm hr).sole hc hd

namespace Example

/-- A connection opens the database. -/
def openAll (c : Nat) : List Event := [.openFile c, .tryLock c, .load c true]

/-- A connection closes it. -/
def closeAll (c : Nat) : List Event := [.persist c, .unlock c, .unlink c, .release c]

/-- One connection after the other. -/
def inTurn : List Event := openAll 0 ++ closeAll 0 ++ openAll 1

/-- Connection 1 has opened the lock file before connection 0 removes it, connection 2 opens after. -/
def overlapping : List Event :=
  openAll 0 ++ [.openFile 1, .persist 0, .unlock 0, .tryLock 1, .load 1 true, .unlink 0] ++ openAll 2

/-- The state after the connections in turn. -/
def afterBoth : State := (run step {} inTurn).getD {}

/-- Connection 0 alone holds the lock. -/
def alone : Files := { named := some 0, file := Function.update (fun _ => none) 0 (some 0), next := 1
                       owner := Function.update (fun _ => none) 0 (some 0) }

theorem owner_unlock_alone (i : Nat) : (alone.unlock 0).owner i = none := by
  rw [Option.eq_none_iff_forall_ne_some]
  intro d hd
  obtain ⟨hown, hne⟩ := Files.owner_unlock.mp hd
  simp only [alone, Function.update_apply] at hown
  split at hown
  · cases hown
    exact hne rfl
  · cases hown

theorem meets_inTurn : Meets step Safe {} inTurn :=
  Meets.cons trivial rfl <| Meets.cons (fun _ _ => rfl) rfl <| Meets.cons trivial rfl <|
    Meets.cons trivial rfl <| Meets.cons trivial rfl <| Meets.cons owner_unlock_alone rfl <|
    Meets.cons trivial rfl <| Meets.cons trivial rfl <| Meets.cons (fun _ _ => rfl) rfl <|
    Meets.cons trivial rfl trivial

end Example

/-- After connection 0 has closed, connection 1 is the only one with a handle. -/
theorem writers_in_turn : Live Example.afterBoth 1 ∧ ∀ d, Live Example.afterBoth d → d = 1 :=
  have hrun : run step {} Example.inTurn = some Example.afterBoth := rfl
  have hlive : Live Example.afterBoth 1 := .inl rfl
  ⟨hlive, fun _ hd => single_writer hrun Example.meets_inTurn hd hlive⟩

/-- One closer and two openers: connections 1 and 2 both have a live handle. -/
theorem two_writers : ∃ s, run step {} Example.overlapping = some s ∧ Live s 1 ∧ Live s 2 :=
  ⟨_, rfl, .inl rfl, .inl rfl⟩

end Turbolite.LocalLock
