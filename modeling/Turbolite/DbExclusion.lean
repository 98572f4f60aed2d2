import Mathlib.Data.List.Pairwise
import Mathlib.Data.Set.Insert
import Turbolite.DbLocks

/-!
# Turbolite.DbExclusion

When the levels of the main database file exclude each other. The operating system keeps processes
apart; inside a process nothing does, so a call is *orderly* only if it takes no lock and drops no guard
on bytes another handle of the process relies on. A handle must also not lock a range it has a guard for
(the old guard unlocks it when it goes), nor lose the shared lock it gave up on the way to another level.
-/

namespace Turbolite

open RangeLocks Runs

namespace DbGuard

theorem range_pos (g : DbGuard) : 0 < g.guard.range.len := by
  cases g <;> decide

/-- The guards on the same bytes. -/
def Touches (g g' : DbGuard) : Prop := g.guard.range.Overlaps g'.guard.range

theorem Touches.symm {g g' : DbGuard} (h : g.Touches g') : g'.Touches g := Range.Overlaps.symm h

theorem touches_self (g : DbGuard) : g.Touches g := Range.overlaps_self g.range_pos

/-- The pending byte has two guards, and so has the first shared byte. -/
theorem touches_iff {g g' : DbGuard} : g.Touches g' ↔ g = g' ∨
    g = probe ∧ g' = pending ∨ g = pending ∧ g' = probe ∨
    g = shared ∧ g' = exclusive ∨ g = exclusive ∧ g' = shared := by
  constructor
  · rintro ⟨b, hb, hb'⟩
    cases g <;> cases g' <;>
      simp_all [Range.mem_iff, guard, pendingByte, reservedByte, sharedFirst, sharedSize] <;> omega
  · rintro (rfl | ⟨rfl, rfl⟩ | ⟨rfl, rfl⟩ | ⟨rfl, rfl⟩ | ⟨rfl, rfl⟩)
    · exact touches_self g
    · exact ⟨pendingByte, by decide, by decide⟩
    · exact ⟨pendingByte, by decide, by decide⟩
    · exact ⟨sharedFirst, by decide, by decide⟩
    · exact ⟨sharedFirst, by decide, by decide⟩

/-- On different bytes. -/
def Apart (g g' : DbGuard) : Prop := ¬ g.Touches g'

instance : Std.Symm Apart := ⟨fun _ _ h h' => h h'.symm⟩

theorem nodup_of_apart {gs : List DbGuard} (h : gs.Pairwise Apart) : gs.Nodup := by
  refine List.Pairwise.imp ?_ h
  rintro a b hab rfl
  exact hab a.touches_self

theorem conflicts_iff {g g' : DbGuard} : g.guard.Conflicts g'.guard ↔
    g.Touches g' ∧ (g.guard.mode = .exclusive ∨ g'.guard.mode = .exclusive) := .rfl

end DbGuard

namespace DbLocks

variable {P H : Type} [DecidableEq P] [DecidableEq H] (proc : H → P)

/-- The guards of a handle. -/
def State.held (s : State P H) (h : H) : Set Guard :=
  {g | ∃ d ∈ (s.handles h).active, d.guard = g}

/-- No other handle of the process has a guard that conflicts with the new one. -/
def Alone (s : State P H) (h : H) (g : DbGuard) : Prop :=
  ∀ h', h' ≠ h → proc h' = proc h → ∀ d ∈ (s.handles h').active, ¬ g.guard.Conflicts d.guard

/-- No other handle of the process has a guard on the bytes. -/
def Unshared (s : State P H) (h : H) (g : DbGuard) : Prop :=
  ∀ h', h' ≠ h → proc h' = proc h → ∀ d ∈ (s.handles h').active, ¬ g.Touches d

/-- The guard that a call for the level adds. -/
def own : LockKind → Option DbGuard
  | .reserved => some .reserved
  | .pending => some .pending
  | .exclusive => some .exclusive
  | .none => none
  | .shared => none

/-- When a call does not go wrong. -/
def Orderly (s : State P H) : Event H → Prop
  | .request h kind => ((s.handles h).request kind).isSome = true →
      ∀ g, own kind = some g → g ∉ (s.handles h).active
  | .drop h g => Unshared proc s h g
  | .advance h =>
    match (s.handles h).phase with
    | .dropProbe => Unshared proc s h .probe
    | .dropShared => Unshared proc s h .shared
    | phase => ∀ g, phase.tries = some g →
        if s.table.Grants (proc h) g.guard.mode g.guard.range then Alone proc s h g
        else (phase = .probePending ∨ phase = .takeShared) → (s.handles h).lock = .none
  | .fail h => (s.handles h).lock = .none ∨ (s.handles h).phase = .takeReserved ∨
      (s.handles h).phase = .takePending ∨ (s.handles h).phase = .exclusivePending
  | .close h => ∀ h', h' ≠ h → proc h' = proc h → (s.handles h').active = []

/-! ### The invariant -/

/-- The guards that a level has. -/
structure Kept (l : HandleLocks) : Prop where
  shared : l.lock ≠ .none → .shared ∈ l.active ∨ .exclusive ∈ l.active
  reserved : l.lock = .reserved ∨ l.lock = .pending → .reserved ∈ l.active
  exclusive : l.lock = .exclusive → .exclusive ∈ l.active
  pending : .exclusive ∈ l.active → .pending ∈ l.active
  probe : .probe ∉ l.active

/-- The guards of a handle that has given up its shared lock for the whole range. -/
structure Climbing (l : HandleLocks) : Prop where
  below : l.lock ≠ .none ∧ l.lock ≠ .exclusive
  reserved : l.lock = .reserved ∨ l.lock = .pending → .reserved ∈ l.active
  pending : .pending ∈ l.active
  gone : .shared ∉ l.active ∧ .exclusive ∉ l.active ∧ .probe ∉ l.active

/-- What a handle has, by where it is in its call. -/
def Fits (l : HandleLocks) : Prop :=
  match l.phase with
  | .idle => Kept l
  | .clear _ => True
  | .probePending => l.active = []
  | .dropProbe => l.active = [.probe]
  | .takeShared => l.active = []
  | .takeReserved => Kept l ∧ l.lock ≠ .none ∧ .reserved ∉ l.active
  | .takePending => Kept l ∧ l.lock = .reserved ∧ .pending ∉ l.active
  | .exclusivePending => Kept l ∧ l.lock ≠ .none ∧ .pending ∉ l.active
  | .dropShared => Kept l ∧ l.lock ≠ .none ∧ .pending ∈ l.active ∧ .exclusive ∉ l.active
  | .takeRange => Climbing l
  | .restoreShared => Climbing l

/-- The shared lock is given up and not yet back. -/
def Climbs (l : HandleLocks) : Prop := l.phase = .takeRange ∨ l.phase = .restoreShared

/-- The guards of the handles are what the lock table holds, and they fit the locks. -/
structure Inv (s : State P H) : Prop where
  guarded : Exact proc s.table s.held
  own : ∀ h, (s.handles h).active.Pairwise DbGuard.Apart
  fits : ∀ h, Fits (s.handles h)
  lone : ∀ h, Climbs (s.handles h) → ∀ h', h' ≠ h → .exclusive ∉ (s.handles h').active

variable {proc} {s s' : State P H} {h : H} {g : DbGuard}

theorem Climbs.climbing {l : HandleLocks} (hc : Climbs l) (hf : Fits l) : Climbing l := by
  unfold Fits at hf
  rcases hc with hc | hc
  · rwa [hc] at hf
  · rwa [hc] at hf

omit [DecidableEq P] [DecidableEq H] in
theorem mem_held {d : DbGuard} (hd : d ∈ (s.handles h).active) : d.guard ∈ s.held h := ⟨d, hd, rfl⟩

omit [DecidableEq H] in
/-- Guards of two handles do not conflict. -/
theorem Inv.exclusion (hi : Inv proc s) {h' : H} (hne : h ≠ h') {d d' : DbGuard}
    (hd : d ∈ (s.handles h).active) (hd' : d' ∈ (s.handles h').active) :
    ¬ d.guard.Conflicts d'.guard :=
  hi.guarded.exclusion hne (mem_held hd) (mem_held hd')

omit [DecidableEq H] in
/-- Only one handle has the exclusive guard on a byte. -/
theorem Inv.sole (hi : Inv proc s) {h' : H} (hd : g ∈ (s.handles h).active)
    (hd' : g ∈ (s.handles h').active) (hmode : g.guard.mode = .exclusive) : h = h' := by
  by_contra hne
  exact hi.exclusion hne hd hd' ⟨g.touches_self, .inl hmode⟩

/-! ### One handle changes -/

omit [DecidableEq P] in
theorem held_update {l : HandleLocks} (hs : s'.handles = Function.update s.handles h l) :
    s'.held = Function.update s.held h {g | ∃ d ∈ l.active, d.guard = g} := by
  funext h'
  unfold State.held
  rw [hs]
  by_cases hh : h' = h
  · subst hh
    rw [Function.update_self, Function.update_self]
  · rw [Function.update_of_ne hh, Function.update_of_ne hh]

omit [DecidableEq P] in
/-- A step of one handle keeps the invariant. -/
theorem Inv.update (hi : Inv proc s) {l : HandleLocks}
    (hs : s'.handles = Function.update s.handles h l)
    (hguarded : Exact proc s'.table s'.held)
    (hown : l.active.Pairwise DbGuard.Apart) (hfits : Fits l)
    (hlone : Climbs l → ∀ h', h' ≠ h → .exclusive ∉ (s.handles h').active)
    (hlone' : .exclusive ∈ l.active → ∀ h', h' ≠ h → ¬ Climbs (s.handles h')) : Inv proc s' := by
  have hself : s'.handles h = l := by rw [hs, Function.update_self]
  have hother : ∀ h', h' ≠ h → s'.handles h' = s.handles h' := fun h' hh => by
    rw [hs, Function.update_of_ne hh]
  refine ⟨hguarded, fun h' => ?_, fun h' => ?_, fun h₁ hc h₂ hne => ?_⟩
  · by_cases hh : h' = h
    · rw [hh, hself]
      exact hown
    · rw [hother h' hh]
      exact hi.own h'
  · by_cases hh : h' = h
    · rw [hh, hself]
      exact hfits
    · rw [hother h' hh]
      exact hi.fits h'
  · by_cases hh : h₁ = h
    · subst hh
      rw [hself] at hc
      rw [hother h₂ hne]
      exact hlone hc h₂ hne
    · rw [hother h₁ hh] at hc
      by_cases hh₂ : h₂ = h
      · rw [hh₂, hself]
        exact fun hmem => hlone' hmem h₁ hh hc
      · rw [hother h₂ hh₂]
        exact hi.lone h₁ hc h₂ hne

omit [DecidableEq P] in
/-- A step that leaves the guards alone. -/
theorem Inv.relabel (hi : Inv proc s) {l : HandleLocks} (hactive : l.active = (s.handles h).active)
    (hfits : Fits l) (hlone : Climbs l → Climbs (s.handles h)) : Inv proc (s.setHandle h l) := by
  refine hi.update rfl ?_ (hactive ▸ hi.own h) hfits (fun hc => hi.lone h (hlone hc)) fun hmem h' hne hc => ?_
  · refine hi.guarded.congr fun h' => ?_
    rw [held_update (s := s) rfl, hactive]
    by_cases hh : h' = h
    · subst hh
      rw [Function.update_self]
      rfl
    · rw [Function.update_of_ne hh]
  · exact hi.lone h' hc h (Ne.symm hne) (hactive ▸ hmem)

/-- A guard goes. -/
theorem guarded_dropGuard (hi : Inv proc s) (hmem : g ∈ (s.handles h).active)
    (hun : Unshared proc s h g) :
    Exact proc (s.dropGuard proc h g).table (s.dropGuard proc h g).held := by
  have hown := hi.own h
  rw [held_update (s := s) rfl]
  refine hi.guarded.drop (fun h' g' hg' => ?_) (fun h' g' hg' hnot => ?_) fun h' hp g' hg' hov => ?_
  · by_cases hh : h' = h
    · subst hh
      rw [Function.update_self] at hg'
      obtain ⟨d, hd, rfl⟩ := hg'
      exact mem_held (List.mem_of_mem_erase hd)
    · rwa [Function.update_of_ne hh] at hg'
  · by_cases hh : h' = h
    · subst hh
      rw [Function.update_self] at hnot
      obtain ⟨d, hd, rfl⟩ := hg'
      have hdg : d = g := by
        by_contra hdg
        exact hnot ⟨d, (List.mem_erase_of_ne hdg).mpr hd, rfl⟩
      rw [hdg]
      exact ⟨rfl, rfl⟩
    · rw [Function.update_of_ne hh] at hnot
      exact absurd hg' hnot
  · by_cases hh : h' = h
    · subst hh
      rw [Function.update_self] at hg'
      obtain ⟨d, hd, rfl⟩ := hg'
      -- the guards of one handle are on different bytes
      have hne : g ≠ d := fun heq => ((DbGuard.nodup_of_apart hown).mem_erase_iff.mp hd).1 heq.symm
      exact hown.forall hmem (List.mem_of_mem_erase hd) hne hov
    · rw [Function.update_of_ne hh] at hg'
      obtain ⟨d, hd, rfl⟩ := hg'
      exact hun h' hh hp d hd hov

/-- A guard comes in. -/
theorem guarded_insertGuard (hi : Inv proc s)
    (hgrant : s.table.Grants (proc h) g.guard.mode g.guard.range) (halone : Alone proc s h g)
    (hnew : ∀ d ∈ (s.handles h).active, ¬ g.Touches d) :
    (s.insertGuard proc h g).handles = Function.update s.handles h
        { s.handles h with active := g :: (s.handles h).active } ∧
      Exact proc (s.insertGuard proc h g).table (s.insertGuard proc h g).held := by
  have hnot : g ∉ (s.handles h).active := fun hmem => hnew g hmem g.touches_self
  have heq : s.insertGuard proc h g =
      { s with
        table := s.table.lock (proc h) g.guard.mode g.guard.range
        handles := Function.update s.handles h
          { s.handles h with active := g :: (s.handles h).active } } := by
    unfold State.insertGuard
    rw [if_neg hnot]
  rw [heq]
  refine ⟨rfl, ?_⟩
  rw [held_update (s := s) rfl]
  have htake := hi.guarded.take hgrant (o := h) (fun h' hne hp g' ⟨d, hd, hg'⟩ => ?_)
    fun g' ⟨d, hd, hg'⟩ hov => ?_
  · refine htake.congr fun h' => ?_
    by_cases hh : h' = h
    · subst hh
      rw [Function.update_self, Function.update_self]
      ext x
      constructor
      · rintro ⟨d, hd, rfl⟩
        rcases List.mem_cons.mp hd with rfl | hd
        · exact Set.mem_insert _ _
        · exact Set.mem_insert_of_mem _ (mem_held hd)
      · rintro (rfl | ⟨d, hd, rfl⟩)
        · exact ⟨g, List.mem_cons_self, rfl⟩
        · exact ⟨d, List.mem_cons_of_mem _ hd, rfl⟩
    · rw [Function.update_of_ne hh, Function.update_of_ne hh]
  · subst hg'
    exact halone h' hne hp d hd
  · subst hg'
    exact absurd hov (hnew d hd)

/-- The handle after a granted lock. -/
def HandleLocks.after (l : HandleLocks) (g : DbGuard) : LockKind ⊕ Phase → HandleLocks
  | .inl kind => { lock := kind, active := g :: l.active, phase := .idle }
  | .inr phase => { l with active := g :: l.active, phase := phase }

theorem Inv.granted (hi : Inv proc s)
    (hgrant : s.table.Grants (proc h) g.guard.mode g.guard.range) (halone : Alone proc s h g)
    (hnew : ∀ d ∈ (s.handles h).active, ¬ g.Touches d) {r : LockKind ⊕ Phase}
    (hfits : Fits (HandleLocks.after (s.handles h) g r))
    (hlow : ¬ Climbs (HandleLocks.after (s.handles h) g r))
    (hrange : g = .exclusive → .pending ∈ (s.handles h).active) :
    Inv proc ((s.insertGuard proc h g).finish h r) := by
  obtain ⟨hhandles, hguarded⟩ := guarded_insertGuard hi hgrant halone hnew
  have hself : (s.insertGuard proc h g).handles h =
      { s.handles h with active := g :: (s.handles h).active } := by
    rw [hhandles, Function.update_self]
  have hfin : ((s.insertGuard proc h g).finish h r).handles =
      Function.update s.handles h (HandleLocks.after (s.handles h) g r) := by
    cases r with
    | inl kind =>
      simp only [State.finish, State.setHandle, hself]
      rw [hhandles, Function.update_idem]
      rfl
    | inr phase =>
      simp only [State.finish, State.setPhase, State.setHandle, hself]
      rw [hhandles, Function.update_idem]
      rfl
  have hactive : (HandleLocks.after (s.handles h) g r).active = g :: (s.handles h).active := by
    cases r with
    | inl kind => rfl
    | inr phase => rfl
  have htable : ((s.insertGuard proc h g).finish h r).table = (s.insertGuard proc h g).table := by
    cases r with
    | inl kind => rfl
    | inr phase => rfl
  refine hi.update hfin ?_ ?_ hfits (fun hc => absurd hc hlow) fun hmem h' hne hc => ?_
  · rw [htable]
    refine hguarded.congr fun h' => ?_
    rw [held_update hfin, held_update hhandles, hactive]
  · rw [hactive]
    exact List.pairwise_cons.mpr ⟨hnew, hi.own h⟩
  · rw [hactive] at hmem
    rcases List.mem_cons.mp hmem with hg | hmem
    · -- both would have the pending byte
      have hpend := (hc.climbing (hi.fits h')).pending
      exact hne (hi.sole hpend (hrange hg.symm) rfl)
    · exact hi.lone h' hc h (Ne.symm hne) hmem

omit [DecidableEq P] in
theorem inv_request {kind : LockKind} (hi : Inv proc s) (hidle : (s.handles h).phase = .idle)
    (hord : ((s.handles h).request kind).isSome = true →
      ∀ g, own kind = some g → g ∉ (s.handles h).active) {phase : Phase}
    (hreq : (s.handles h).request kind = some phase) : Inv proc (s.setPhase h phase) := by
  have hkept : Kept (s.handles h) := by
    have hfits := hi.fits h
    unfold Fits at hfits
    rwa [hidle] at hfits
  have hnew := hord (by rw [hreq]; rfl)
  have hk : ∀ phase, Kept { s.handles h with phase := phase } := fun _ => { hkept with }
  unfold HandleLocks.request at hreq
  split at hreq
  · cases hreq
  rename_i hne
  cases kind with
  | none =>
    cases hreq
    exact hi.relabel rfl trivial fun hc => by rcases hc with hc | hc <;> cases hc
  | shared =>
    cases hreq
    exact hi.relabel rfl trivial fun hc => by rcases hc with hc | hc <;> cases hc
  | reserved =>
    simp only at hreq
    split at hreq
    · cases hreq
    · rename_i hnone
      cases hreq
      exact hi.relabel rfl ⟨hk _, hnone, hnew _ rfl⟩ fun hc => by rcases hc with hc | hc <;> cases hc
  | pending =>
    simp only at hreq
    split at hreq
    · cases hreq
    · rename_i hlow
      cases hreq
      refine hi.relabel rfl ⟨hk _, ?_, hnew _ rfl⟩ fun hc => by rcases hc with hc | hc <;> cases hc
      -- a handle at Exclusive has the pending guard already
      have hexcl : (s.handles h).lock ≠ .exclusive :=
        fun he => hnew _ rfl (hkept.pending (hkept.exclusive he))
      show (s.handles h).lock = .reserved
      cases hl : (s.handles h).lock <;> simp_all
  | exclusive =>
    simp only at hreq
    split at hreq
    · cases hreq
    · rename_i hnone
      split at hreq
      · rename_i hpend
        cases hreq
        exact hi.relabel rfl ⟨hk _, hnone, hpend, hnew _ rfl⟩ fun hc => by rcases hc with hc | hc <;> cases hc
      · rename_i hpend
        cases hreq
        exact hi.relabel rfl ⟨hk _, hnone, hpend⟩ fun hc => by rcases hc with hc | hc <;> cases hc

/-- A guard is dropped on the way to the next phase. -/
theorem Inv.dropGuard (hi : Inv proc s) (hmem : g ∈ (s.handles h).active)
    (hun : Unshared proc s h g) {phase : Phase}
    (hfits : Fits { s.handles h with active := (s.handles h).active.erase g, phase := phase })
    (hlone : phase = .takeRange ∨ phase = .restoreShared →
      ∀ h', h' ≠ h → .exclusive ∉ (s.handles h').active) :
    Inv proc ((s.dropGuard proc h g).setPhase h phase) := by
  have hhandles : ((s.dropGuard proc h g).setPhase h phase).handles = Function.update s.handles h
      { s.handles h with active := (s.handles h).active.erase g, phase := phase } := by
    simp only [State.setPhase, State.setHandle, State.dropGuard, Function.update_self,
      Function.update_idem]
  refine hi.update hhandles ?_ ((hi.own h).sublist List.erase_sublist) hfits hlone
    fun hx h' hne hc => hi.lone h' hc h (Ne.symm hne) (List.mem_of_mem_erase hx)
  refine (guarded_dropGuard hi hmem hun).congr fun h' => ?_
  have hdrop : (s.dropGuard proc h g).handles = Function.update s.handles h
      { s.handles h with active := (s.handles h).active.erase g } := rfl
  rw [held_update hhandles, held_update hdrop]

theorem inv_drop {shared : Bool} (hi : Inv proc s) (hphase : (s.handles h).phase = .clear shared)
    (hmem : g ∈ (s.handles h).active) (hun : Unshared proc s h g) :
    Inv proc (s.dropGuard proc h g) := by
  have heq : (s.dropGuard proc h g).setPhase h (.clear shared) = s.dropGuard proc h g := by
    unfold State.setPhase State.setHandle State.dropGuard
    simp only [Function.update_self, Function.update_idem]
    rw [← hphase]
  rw [← heq]
  exact hi.dropGuard hmem hun trivial fun hc => by rcases hc with hc | hc <;> cases hc

omit [DecidableEq P] in
/-- A call that returns without having changed a guard. -/
theorem Inv.giveUp (hi : Inv proc s) (hkept : Kept { s.handles h with phase := .idle }) :
    Inv proc (s.setPhase h .idle) :=
  hi.relabel rfl hkept fun hc => by rcases hc with hc | hc <;> cases hc

/-- A handle without guards is at no level. -/
theorem kept_of_nil {l : HandleLocks} (hlock : l.lock = .none) (hactive : l.active = []) : Kept l where
  shared h := absurd hlock h
  reserved h := by
    rw [hlock] at h
    rcases h with h | h <;> cases h
  exclusive h := by
    rw [hlock] at h
    cases h
  pending h := by
    rw [hactive] at h
    cases h
  probe h := by
    rw [hactive] at h
    cases h

/-- The shared guard is back. -/
theorem Climbing.restored {l : HandleLocks} (h : Climbing l) :
    Kept { l with active := .shared :: l.active, phase := .idle } where
  shared _ := .inl List.mem_cons_self
  reserved hl := List.mem_cons_of_mem _ (h.reserved hl)
  exclusive hl := absurd hl h.below.2
  pending _ := List.mem_cons_of_mem _ h.pending
  probe hp := by
    rcases List.mem_cons.mp hp with hp | hp
    · cases hp
    · exact h.gone.2.2 hp

/-- The range is locked. -/
theorem Climbing.taken {l : HandleLocks} (h : Climbing l) :
    Kept { lock := .exclusive, active := .exclusive :: l.active, phase := .idle } where
  shared _ := .inr List.mem_cons_self
  reserved hl := by rcases hl with hl | hl <;> cases hl
  exclusive _ := List.mem_cons_self
  pending _ := List.mem_cons_of_mem _ h.pending
  probe hp := by
    rcases List.mem_cons.mp hp with hp | hp
    · cases hp
    · exact h.gone.2.2 hp

/-- The climbing handle has nothing on the shared bytes. -/
theorem Climbing.notMem {l : HandleLocks} (h : Climbing l) {d : DbGuard} (hd : d ∈ l.active) :
    ¬ DbGuard.shared.Touches d ∧ ¬ DbGuard.exclusive.Touches d := by
  have hs : d ≠ .shared := fun heq => h.gone.1 (heq ▸ hd)
  have he : d ≠ .exclusive := fun heq => h.gone.2.1 (heq ▸ hd)
  rw [DbGuard.touches_iff, DbGuard.touches_iff]
  cases d <;> simp_all

omit [DecidableEq H] in
/-- Nothing is in the way of a handle that takes its shared lock back. -/
theorem Inv.grants_shared (hi : Inv proc s) (hc : Climbs (s.handles h)) :
    s.table.Grants (proc h) DbGuard.shared.guard.mode DbGuard.shared.guard.range := by
  refine hi.guarded.grants fun h' hp g' ⟨d, hd, hg'⟩ hcon => ?_
  subst hg'
  have hne : h' ≠ h := fun heq => hp (heq ▸ rfl)
  obtain ⟨htouch, hmode⟩ := DbGuard.conflicts_iff.mp hcon
  rcases DbGuard.touches_iff.mp htouch with rfl | ⟨h₁, -⟩ | ⟨h₁, -⟩ | ⟨-, rfl⟩ | ⟨h₁, -⟩
  · rcases hmode with hmode | hmode <;> cases hmode
  · cases h₁
  · cases h₁
  · exact hi.lone h hc h' hne hd
  · cases h₁

/-- A handle above None gets one more guard, and perhaps another level. -/
theorem Kept.grow {l : HandleLocks} (h : Kept l) (hlock : l.lock ≠ .none) {kind : LockKind}
    {phase : Phase} (hprobe : g ≠ .probe) (hexcl : g ≠ .exclusive)
    (hres : kind = .reserved ∨ kind = .pending → .reserved ∈ g :: l.active)
    (hex : kind = .exclusive → .exclusive ∈ l.active) : Kept ⟨kind, g :: l.active, phase⟩ where
  shared _ := (h.shared hlock).imp (List.mem_cons_of_mem _) (List.mem_cons_of_mem _)
  reserved := hres
  exclusive hl := List.mem_cons_of_mem _ (hex hl)
  pending hx := by
    rcases List.mem_cons.mp hx with hx | hx
    · exact absurd hx.symm hexcl
    · exact List.mem_cons_of_mem _ (h.pending hx)
  probe hx := by
    rcases List.mem_cons.mp hx with hx | hx
    · exact hprobe hx.symm
    · exact h.probe hx

/-- A guard on the pending byte is new to a handle that has none there. -/
theorem Kept.notMem_pending {l : HandleLocks} (h : Kept l) (hnot : .pending ∉ l.active) {d : DbGuard}
    (hd : d ∈ l.active) : ¬ DbGuard.pending.Touches d := by
  intro htouch
  rcases DbGuard.touches_iff.mp htouch with rfl | ⟨h₁, -⟩ | ⟨-, rfl⟩ | ⟨h₁, -⟩ | ⟨h₁, -⟩
  · exact hnot hd
  · cases h₁
  · exact h.probe hd
  · cases h₁
  · cases h₁

/-- A lock that is granted fits the phase that tried it. -/
theorem inv_try_granted (hi : Inv proc s) (htry : (s.handles h).phase.tries = some g)
    (hgrant : s.table.Grants (proc h) g.guard.mode g.guard.range) (hord : Alone proc s h g) :
    Inv proc ((s.insertGuard proc h g).finish h (s.handles h).phase.granted) := by
  have hfits := hi.fits h
  unfold Fits at hfits
  cases hphase : (s.handles h).phase with
  | probePending =>
    rw [hphase] at hfits htry
    cases htry
    refine hi.granted hgrant hord (fun d hd => ?_) ?_ ?_ fun hx => by cases hx
    · rw [hfits] at hd
      cases hd
    · show _ :: (s.handles h).active = _
      rw [hfits]
    · rintro (hc | hc) <;> cases hc
  | takeShared =>
    rw [hphase] at hfits htry
    cases htry
    refine hi.granted hgrant hord (fun d hd => ?_) ?_ ?_ fun hx => by cases hx
    · rw [hfits] at hd
      cases hd
    · refine ⟨fun _ => .inl List.mem_cons_self, ?_, ?_, ?_, ?_⟩
      · rintro (hl | hl) <;> cases hl
      · intro hl
        cases hl
      · show _ ∈ _ :: (s.handles h).active → _
        rw [hfits]
        intro hx
        rcases List.mem_singleton.mp hx
      · show _ ∉ _ :: (s.handles h).active
        rw [hfits]
        intro hx
        rcases List.mem_singleton.mp hx
    · rintro (hc | hc) <;> cases hc
  | takeReserved =>
    rw [hphase] at hfits htry
    cases htry
    obtain ⟨hkept, hlock, hnot⟩ := hfits
    refine hi.granted hgrant hord (fun d hd htouch => ?_) ?_ ?_ fun hx => by cases hx
    · rcases DbGuard.touches_iff.mp htouch with rfl | ⟨h₁, -⟩ | ⟨h₁, -⟩ | ⟨h₁, -⟩ | ⟨h₁, -⟩
      · exact hnot hd
      all_goals cases h₁
    · exact hkept.grow hlock (by decide) (by decide) (fun _ => List.mem_cons_self) fun hl => by cases hl
    · rintro (hc | hc) <;> cases hc
  | takePending =>
    rw [hphase] at hfits htry
    cases htry
    obtain ⟨hkept, hlock, hnot⟩ := hfits
    refine hi.granted hgrant hord (fun d hd => hkept.notMem_pending hnot hd) ?_ ?_ fun hx => by cases hx
    · refine hkept.grow ?_ (by decide) (by decide) (fun _ => ?_) fun hl => by cases hl
      · rw [hlock]
        decide
      · exact List.mem_cons_of_mem _ (hkept.reserved (.inl hlock))
    · rintro (hc | hc) <;> cases hc
  | exclusivePending =>
    rw [hphase] at hfits htry
    cases htry
    obtain ⟨hkept, hlock, hnot⟩ := hfits
    refine hi.granted hgrant hord (fun d hd => hkept.notMem_pending hnot hd) ?_ ?_ fun hx => by cases hx
    · refine ⟨hkept.grow hlock (by decide) (by decide) (fun hl => ?_) hkept.exclusive, hlock,
        List.mem_cons_self, fun hx => ?_⟩
      · exact List.mem_cons_of_mem _ (hkept.reserved hl)
      · rcases List.mem_cons.mp hx with hx | hx
        · cases hx
        · exact hnot (hkept.pending hx)
    · rintro (hc | hc) <;> cases hc
  | takeRange =>
    rw [hphase] at hfits htry
    cases htry
    have hclimb : Climbing (s.handles h) := hfits
    refine hi.granted hgrant hord (fun d hd => (hclimb.notMem hd).2) hclimb.taken ?_
      fun _ => hclimb.pending
    rintro (hc | hc) <;> cases hc
  | restoreShared =>
    rw [hphase] at hfits htry
    cases htry
    have hclimb : Climbing (s.handles h) := hfits
    refine hi.granted hgrant hord (fun d hd => (hclimb.notMem hd).1) hclimb.restored ?_
      fun hx => by cases hx
    rintro (hc | hc) <;> cases hc
  | idle | clear _ | dropProbe | dropShared =>
    rw [hphase] at htry
    cases htry

/-- A lock that is refused leaves the handle as it was, on its way back. -/
theorem inv_try_refused (hi : Inv proc s) (htry : (s.handles h).phase.tries = some g)
    (hrefuse : ¬ s.table.Grants (proc h) g.guard.mode g.guard.range)
    (hord : ((s.handles h).phase = .probePending ∨ (s.handles h).phase = .takeShared) →
      (s.handles h).lock = .none) :
    Inv proc (s.setPhase h (s.handles h).phase.refused) := by
  have hfits := hi.fits h
  unfold Fits at hfits
  cases hphase : (s.handles h).phase with
  | probePending =>
    rw [hphase] at hfits
    exact hi.giveUp (kept_of_nil (hord (.inl hphase)) hfits)
  | takeShared =>
    rw [hphase] at hfits
    exact hi.giveUp (kept_of_nil (hord (.inr hphase)) hfits)
  | takeReserved | takePending | exclusivePending =>
    rw [hphase] at hfits
    exact hi.giveUp { hfits.1 with }
  | takeRange =>
    rw [hphase] at hfits
    have hclimb : Climbing (s.handles h) := hfits
    exact hi.relabel rfl { hclimb with } fun _ => .inl hphase
  | restoreShared =>
    rw [hphase] at htry
    cases htry
    exact absurd (hi.grants_shared (.inr hphase)) hrefuse
  | idle | clear _ | dropProbe | dropShared =>
    rw [hphase] at htry
    cases htry

/-- A lock that a phase tries is granted, refused, or fits the phase's return. -/
theorem inv_try (hi : Inv proc s) (htry : (s.handles h).phase.tries = some g)
    (hord : if s.table.Grants (proc h) g.guard.mode g.guard.range then Alone proc s h g
      else ((s.handles h).phase = .probePending ∨ (s.handles h).phase = .takeShared) →
        (s.handles h).lock = .none) :
    Inv proc (if s.table.Grants (proc h) g.guard.mode g.guard.range then
        (s.insertGuard proc h g).finish h (s.handles h).phase.granted
      else s.setPhase h (s.handles h).phase.refused) := by
  split at hord
  · rename_i hgrant
    rw [if_pos hgrant]
    exact inv_try_granted hi htry hgrant hord
  · rename_i hrefuse
    rw [if_neg hrefuse]
    exact inv_try_refused hi htry hrefuse hord

theorem advance_of_tries (htry : (s.handles h).phase.tries = some g) :
    advance proc s h = some (if s.table.Grants (proc h) g.guard.mode g.guard.range then
        (s.insertGuard proc h g).finish h (s.handles h).phase.granted
      else s.setPhase h (s.handles h).phase.refused) := by
  unfold advance
  cases hphase : (s.handles h).phase with
  | idle | clear _ | dropProbe | dropShared =>
    rw [hphase] at htry
    cases htry
  | probePending | takeShared | takeReserved | takePending | exclusivePending | takeRange |
      restoreShared =>
    rw [hphase] at htry
    simp only [hphase]
    rw [htry]
    rfl

omit [DecidableEq H] in
theorem orderly_of_tries (htry : (s.handles h).phase.tries = some g)
    (hord : Orderly proc s (.advance h)) :
    if s.table.Grants (proc h) g.guard.mode g.guard.range then Alone proc s h g
    else ((s.handles h).phase = .probePending ∨ (s.handles h).phase = .takeShared) →
      (s.handles h).lock = .none := by
  simp only [Orderly] at hord
  cases hphase : (s.handles h).phase with
  | idle | clear _ | dropProbe | dropShared =>
    rw [hphase] at htry
    cases htry
  | probePending | takeShared | takeReserved | takePending | exclusivePending | takeRange |
      restoreShared =>
    rw [hphase] at htry hord
    exact hord g htry

theorem inv_advance (hi : Inv proc s) (hord : Orderly proc s (.advance h))
    (hs : advance proc s h = some s') : Inv proc s' := by
  cases htry : (s.handles h).phase.tries with
  | some g =>
    rw [advance_of_tries htry] at hs
    rw [← Option.some.inj hs]
    exact inv_try hi htry (orderly_of_tries htry hord)
  | none =>
    have hfits := hi.fits h
    unfold Fits at hfits
    simp only [Orderly] at hord
    unfold advance at hs
    cases hphase : (s.handles h).phase with
    | idle =>
      simp only [hphase] at hs
      cases hs
    | clear shared =>
      simp only [hphase] at hs
      split at hs
      · rename_i hnil
        cases hs
        split
        · exact hi.relabel rfl hnil fun hc => by rcases hc with hc | hc <;> cases hc
        · exact hi.relabel rfl (kept_of_nil rfl hnil) fun hc => by rcases hc with hc | hc <;> cases hc
      · cases hs
    | dropProbe =>
      simp only [hphase] at hs hord hfits
      cases hs
      refine hi.dropGuard ?_ hord ?_ fun hc => by rcases hc with hc | hc <;> cases hc
      · rw [hfits]
        exact List.mem_cons_self
      · show (s.handles h).active.erase .probe = []
        rw [hfits]
        rfl
    | dropShared =>
      simp only [hphase] at hs hord hfits
      obtain ⟨hkept, hlock, hpend, hexcl⟩ := hfits
      have hshared : .shared ∈ (s.handles h).active := (hkept.shared hlock).resolve_right hexcl
      rw [if_pos hshared] at hs
      cases hs
      have hnodup := DbGuard.nodup_of_apart (hi.own h)
      refine hi.dropGuard hshared hord ⟨⟨hlock, fun hl => hexcl (hkept.exclusive hl)⟩, fun hl => ?_, ?_,
        ?_, ?_, ?_⟩ fun _ h' hne hx => ?_
      · exact (List.mem_erase_of_ne (by decide)).mpr (hkept.reserved hl)
      · exact (List.mem_erase_of_ne (by decide)).mpr hpend
      · exact fun hx => (hnodup.mem_erase_iff.mp hx).1 rfl
      · exact fun hx => hexcl (List.mem_of_mem_erase hx)
      · exact fun hx => hkept.probe (List.mem_of_mem_erase hx)
      · -- the shared guard is still there
        exact hi.exclusion hne hx hshared
          ⟨DbGuard.touches_iff.mpr (.inr (.inr (.inr (.inr ⟨rfl, rfl⟩)))), .inl rfl⟩
    | probePending | takeShared | takeReserved | takePending | exclusivePending | takeRange |
        restoreShared =>
      rw [hphase] at htry
      cases htry

theorem inv_fail (hi : Inv proc s) (hord : Orderly proc s (.fail h))
    (htry : (s.handles h).phase.tries.isSome = true) : Inv proc (s.setPhase h .idle) := by
  have hfits := hi.fits h
  unfold Fits at hfits
  cases hphase : (s.handles h).phase with
  | probePending | takeShared =>
    rw [hphase] at hfits
    refine hi.giveUp (kept_of_nil ?_ hfits)
    rcases hord with hord | hord | hord | hord
    · exact hord
    all_goals
      rw [hphase] at hord
      cases hord
  | takeReserved | takePending | exclusivePending =>
    rw [hphase] at hfits
    exact hi.giveUp { hfits.1 with }
  | takeRange | restoreShared =>
    rw [hphase] at hfits
    rcases hord with hord | hord | hord | hord
    · exact absurd hord hfits.below.1
    all_goals
      rw [hphase] at hord
      cases hord
  | idle | clear _ | dropProbe | dropShared =>
    rw [hphase] at htry
    cases htry

theorem inv_close (hi : Inv proc s) (hord : Orderly proc s (.close h)) :
    Inv proc { s with
      table := s.table.closeFile (proc h)
      handles := Function.update s.handles h {} } := by
  refine hi.update rfl ?_ List.Pairwise.nil (kept_of_nil rfl rfl) (fun hc => ?_) fun hx => by cases hx
  · have hnil : {g | ∃ d ∈ ({} : HandleLocks).active, d.guard = g} = ∅ :=
      Set.eq_empty_of_forall_notMem fun g ⟨d, hd, _⟩ => List.not_mem_nil hd
    rw [held_update (s := s) rfl, hnil]
    refine hi.guarded.closeFile (fun h' g hg => ?_) (fun h' g hg hnot => ?_) fun h' hp => ?_
    · by_cases hh : h' = h
      · rw [hh, Function.update_self] at hg
        exact absurd hg (Set.notMem_empty g)
      · rwa [Function.update_of_ne hh] at hg
    · by_cases hh : h' = h
      · rw [hh]
      · rw [Function.update_of_ne hh] at hnot
        exact absurd hg hnot
    · by_cases hh : h' = h
      · rw [hh, Function.update_self]
      · rw [Function.update_of_ne hh]
        refine Set.eq_empty_of_forall_notMem fun g ⟨d, hd, _⟩ => ?_
        rw [hord h' hh hp] at hd
        cases hd
  · rcases hc with hc | hc <;> cases hc

/-- A call begins between two calls; it may have nothing to do. -/
theorem request_inv {kind : LockKind} (hs : step proc s (.request h kind) = some s') :
    (s.handles h).phase = .idle ∧
      (s' = s ∨ ∃ phase, (s.handles h).request kind = some phase ∧ s' = s.setPhase h phase) := by
  simp only [step, Option.ite_none_right_eq_some] at hs
  obtain ⟨hidle, hs⟩ := hs
  split at hs
  · exact ⟨hidle, .inl (Option.some.inj hs).symm⟩
  · rename_i phase hreq
    exact ⟨hidle, .inr ⟨phase, hreq, (Option.some.inj hs).symm⟩⟩

/-- The guards go one by one while the call clears them. -/
theorem drop_inv (hs : step proc s (.drop h g) = some s') :
    (∃ shared, (s.handles h).phase = .clear shared) ∧ g ∈ (s.handles h).active ∧
      s' = s.dropGuard proc h g := by
  simp only [step] at hs
  split at hs
  · rename_i shared hphase
    simp only [Option.ite_none_right_eq_some, Option.some.injEq] at hs
    exact ⟨⟨shared, hphase⟩, hs.1, hs.2.symm⟩
  · cases hs

theorem fail_inv (hs : step proc s (.fail h) = some s') :
    (s.handles h).phase.tries.isSome ∧ s' = s.setPhase h .idle := by
  simp only [step, Option.ite_none_right_eq_some, Option.some.injEq] at hs
  exact ⟨hs.1, hs.2.symm⟩

theorem close_inv (hs : step proc s (.close h) = some s') : (s.handles h).phase = .idle ∧
    s' = { s with
      table := s.table.closeFile (proc h)
      handles := Function.update s.handles h {} } := by
  simp only [step, Option.ite_none_right_eq_some, Option.some.injEq] at hs
  exact ⟨hs.1, hs.2.symm⟩

theorem step_inv {e : Event H} (hi : Inv proc s) (hord : Orderly proc s e)
    (hs : step proc s e = some s') : Inv proc s' := by
  cases e with
  | request h kind =>
    obtain ⟨hidle, rfl | ⟨phase, hreq, rfl⟩⟩ := request_inv hs
    · exact hi
    · exact inv_request hi hidle hord hreq
  | drop h g =>
    obtain ⟨⟨shared, hphase⟩, hmem, rfl⟩ := drop_inv hs
    exact inv_drop hi hphase hmem hord
  | advance h => exact inv_advance hi hord hs
  | fail h =>
    obtain ⟨htry, rfl⟩ := fail_inv hs
    exact inv_fail hi hord htry
  | close h =>
    obtain ⟨-, rfl⟩ := close_inv hs
    exact inv_close hi hord

/-! ### The levels -/

omit [DecidableEq P] [DecidableEq H] in
/-- What a handle at a level holds. -/
theorem Inv.of_level (hi : Inv proc s) (hl : s.levelOf h ≠ .none) :
    s.levelOf h = (s.handles h).lock ∧ (Kept (s.handles h) ∨ Climbs (s.handles h)) := by
  have hfits := hi.fits h
  unfold Fits at hfits
  unfold State.levelOf at hl ⊢
  cases hphase : (s.handles h).phase with
  | clear _ | probePending | dropProbe | takeShared =>
    rw [hphase] at hl
    exact absurd rfl hl
  | idle =>
    rw [hphase] at hfits
    exact ⟨rfl, .inl hfits⟩
  | takeReserved | takePending | exclusivePending | dropShared =>
    rw [hphase] at hfits
    exact ⟨rfl, .inl hfits.1⟩
  | takeRange => exact ⟨rfl, .inr (.inl hphase)⟩
  | restoreShared => exact ⟨rfl, .inr (.inr hphase)⟩

omit [DecidableEq P] [DecidableEq H] in
theorem Inv.exclusive_of_level (hi : Inv proc s) (hl : s.levelOf h = .exclusive) :
    .exclusive ∈ (s.handles h).active := by
  obtain ⟨heq, hk | hc⟩ := hi.of_level (by rw [hl]; decide)
  · exact hk.exclusive (heq ▸ hl)
  · exact absurd (heq ▸ hl) (hc.climbing (hi.fits h)).below.2

omit [DecidableEq P] [DecidableEq H] in
theorem Inv.reserved_of_level (hi : Inv proc s)
    (hl : s.levelOf h = .reserved ∨ s.levelOf h = .pending) : .reserved ∈ (s.handles h).active := by
  obtain ⟨heq, hk | hc⟩ := hi.of_level (h := h) (by rcases hl with hl | hl <;> rw [hl] <;> decide)
  · exact hk.reserved (heq ▸ hl)
  · exact (hc.climbing (hi.fits h)).reserved (heq ▸ hl)

omit [DecidableEq H] in
/-- The handle at Exclusive is the only one at a level. -/
theorem Inv.exclusive_alone (hi : Inv proc s) {h' : H} (hne : h ≠ h')
    (hl : s.levelOf h = .exclusive) : s.levelOf h' = .none := by
  by_contra hl'
  have hx := hi.exclusive_of_level hl
  obtain ⟨heq, hk | hc⟩ := hi.of_level hl'
  · rcases hk.shared (heq ▸ hl') with hs | hs
    · exact hi.exclusion hne hx hs
        ⟨DbGuard.touches_iff.mpr (.inr (.inr (.inr (.inr ⟨rfl, rfl⟩)))), .inl rfl⟩
    · exact hne (hi.sole hx hs rfl)
  · exact hi.lone h' hc h hne hx

/-- `reserved`: the handle is at Reserved or above. -/
def LockKind.isReserved : LockKind → Bool
  | .reserved | .pending | .exclusive => true
  | .none | .shared => false

/-- In a run of orderly calls, a handle at Exclusive is the only one at Shared or above, and at most
one handle is at Reserved or above, in one process or several. -/
theorem db_locks_exclude (proc : H → P) {es : List (Event H)} {s' : State P H}
    (hord : Meets (step proc) (Orderly proc) {} es) (hrun : run (step proc) {} es = some s') :
    (∀ h h', h ≠ h' → s'.levelOf h = .exclusive → s'.levelOf h' = .none) ∧
    ∀ h h', LockKind.isReserved (s'.levelOf h) = true →
      LockKind.isReserved (s'.levelOf h') = true → h = h' := by
  have hinit : Inv proc ({} : State P H) := by
    refine ⟨exact_empty.congr fun h => ?_, fun h => List.Pairwise.nil, fun h => kept_of_nil rfl rfl,
      fun h hc => by rcases hc with hc | hc <;> cases hc⟩
    exact Set.eq_empty_of_forall_notMem fun g ⟨d, hd, _⟩ => List.not_mem_nil hd
  have hi : Inv proc s' := run_invariant (fun _ _ _ h hc hs => step_inv h hc hs) hinit hord hrun
  refine ⟨fun h h' hne hl => hi.exclusive_alone hne hl, fun h h' hl hl' => ?_⟩
  by_contra hne
  have hlow : ∀ k, LockKind.isReserved k = true → k = .exclusive ∨ k = .reserved ∨ k = .pending := by
    intro k hk
    cases k <;> simp_all [LockKind.isReserved]
  rcases hlow _ hl with hx | hr
  · rw [hi.exclusive_alone hne hx] at hl'
    cases hl'
  · rcases hlow _ hl' with hx' | hr'
    · rw [hi.exclusive_alone (Ne.symm hne) hx'] at hl
      cases hl
    · exact hne (hi.sole (hi.reserved_of_level hr) (hi.reserved_of_level hr') rfl)

/-- What is left to ask of a call when every handle has a process of its own. -/
def Calm (s : State P H) : Event H → Prop
  | .request h kind => ((s.handles h).request kind).isSome = true →
      ∀ g ∈ (s.handles h).active, own kind ≠ some g
  | .advance h => (s.handles h).lock = .none ∨
      ((s.handles h).phase ≠ .probePending ∧ (s.handles h).phase ≠ .takeShared)
  | .fail h => (s.handles h).lock = .none
  | .drop _ _ => True
  | .close _ => True

instance (s : State P H) : (e : Event H) → Decidable (Calm s e)
  | .request _ _ => inferInstanceAs (Decidable (_ → _))
  | .advance _ => inferInstanceAs (Decidable (_ ∨ _))
  | .fail h => inferInstanceAs (Decidable ((s.handles h).lock = .none))
  | .drop _ _ => .isTrue trivial
  | .close _ => .isTrue trivial

omit [DecidableEq H] in
theorem orderly_of_calm (hinj : Function.Injective proc) {e : Event H} (hc : Calm s e) :
    Orderly proc s e := by
  have halone : ∀ h g, Alone proc s h g := fun h g h' hne hp => absurd (hinj hp) hne
  have hun : ∀ h g, Unshared proc s h g := fun h g h' hne hp => absurd (hinj hp) hne
  cases e with
  | request h kind => exact fun hreq g hg hmem => hc hreq g hmem hg
  | drop h g => exact hun h g
  | advance h =>
    simp only [Orderly]
    have hlow : ∀ g, if s.table.Grants (proc h) g.guard.mode g.guard.range then Alone proc s h g
        else ((s.handles h).phase = .probePending ∨ (s.handles h).phase = .takeShared) →
          (s.handles h).lock = .none := by
      intro g
      split
      · exact halone h g
      · rintro hp
        rcases hc with hc | ⟨hc₁, hc₂⟩
        · exact hc
        · exact absurd hp (not_or.mpr ⟨hc₁, hc₂⟩)
    split
    · exact hun h _
    · exact hun h _
    · exact fun g _ => hlow g
  | fail h => exact .inl hc
  | close h => exact fun h' hne hp => absurd (hinj hp) hne

namespace Example

/-- A handle takes Shared. -/
def takeShared (h : Nat) : List (Event Nat) :=
  [.request h .shared, .advance h, .advance h, .advance h, .advance h]

/-- Shared, then Exclusive. -/
def takeExclusive (h : Nat) : List (Event Nat) :=
  takeShared h ++ [.request h .exclusive, .advance h, .advance h, .advance h]

end Example

open Example

/-- Two processes: the second is refused. -/
theorem second_process_refused : ∃ s', run (step (id : Nat → Nat)) {} (takeExclusive 0 ++
      [.request 1 .shared, .advance 1, .advance 1]) = some s' ∧
    s'.levelOf 0 = .exclusive ∧ s'.levelOf 1 = .none := by
  have hrun : (run (step (id : Nat → Nat)) {} (takeExclusive 0 ++
      [.request 1 .shared, .advance 1, .advance 1])).map (fun s => s.levelOf 0) =
        some .exclusive := by decide +kernel
  obtain ⟨s', hs', hlevel⟩ := Option.map_eq_some_iff.mp hrun
  have hcalm : Meets (step (id : Nat → Nat)) Calm {} (takeExclusive 0 ++
      [.request 1 .shared, .advance 1, .advance 1]) := by decide +kernel
  have hall := db_locks_exclude (id : Nat → Nat)
    (hcalm.imp fun s e => orderly_of_calm Function.injective_id) hs'
  exact ⟨s', hs', hlevel, hall.1 0 1 (by decide) hlevel⟩

/-- Two handles of one process: the second gets Shared while the first has Exclusive. -/
theorem one_process_not_refused : ∃ s', run (step (fun _ : Nat => 0)) {} (takeExclusive 0 ++
      takeShared 1) = some s' ∧
    s'.levelOf 0 = .exclusive ∧ s'.levelOf 1 = .shared ∧
    ¬ ∀ h h', h ≠ h' → s'.levelOf h = .exclusive → s'.levelOf h' = .none := by
  have hrun : (run (step (fun _ : Nat => 0)) {} (takeExclusive 0 ++ takeShared 1)).map
      (fun s => (s.levelOf 0, s.levelOf 1)) = some (.exclusive, .shared) := by decide +kernel
  obtain ⟨s', hs', hlevel⟩ := Option.map_eq_some_iff.mp hrun
  obtain ⟨h₀, h₁⟩ : s'.levelOf 0 = .exclusive ∧ s'.levelOf 1 = .shared := Prod.ext_iff.mp hlevel
  refine ⟨s', hs', h₀, h₁, fun hall => ?_⟩
  have hnone := hall 0 1 (by decide) h₀
  rw [h₁] at hnone
  cases hnone

end DbLocks

end Turbolite
