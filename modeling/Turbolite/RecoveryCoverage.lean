import Turbolite.Sashimono
import Mathlib.Data.Nat.Find

/-!
# Turbolite.RecoveryCoverage

Which pages a recovery plan determines. The checks of a plan bound each page object and each changed page
on its own; that the objects of the checkpoint cover its pages once, and that a delta writes the pages it
adds, is left to the writers. `plan_covers_iff` says what those must have done.
-/

namespace Turbolite.Sashimono

open Results

/-- The object has the page. -/
def PageObjectRefV1.Has (o : PageObjectRefV1) (p : Nat) : Prop :=
  o.firstPage.toNat ≤ p ∧ p < o.firstPage.toNat + o.pageCount.toNat

/-- The delta has the page among its changed pages. -/
def DeltaV1.Writes (d : DeltaV1) (p : Nat) : Prop := ∃ page ∈ d.changedPages, page.pageNumber.toNat = p

namespace RecoveryPlanV1

variable (plan : RecoveryPlanV1)

/-- The page count after the deltas. -/
def finalPageCount : Nat :=
  (plan.deltas.getLast?.map (·.endDatabasePageCount.toNat)).getD
    plan.checkpoint.databasePageCount.toNat

/-- The `i`th delta shrinks the database below the page, or leaves it so. -/
def Drops (p i : Nat) : Prop := ∃ d, plan.deltas[i]? = some d ∧ d.endDatabasePageCount.toNat ≤ p

/-- No delta from the `i`th on shrinks the database below the page. -/
def KeptFrom (i : Nat) (p : Nat) : Prop :=
  ∀ j d, i ≤ j → plan.deltas[j]? = some d → p < d.endDatabasePageCount.toNat

/-- The page has its bytes from an object of the checkpoint, or from a delta, and no later delta drops
it. -/
def Covers (p : Nat) : Prop :=
  ((∃ o ∈ plan.checkpoint.pageObjects, o.Has p) ∧ plan.KeptFrom 0 p) ∨
    ∃ i d, plan.deltas[i]? = some d ∧ d.Writes p ∧ plan.KeptFrom (i + 1) p

/-- Every part of the plan lies where it belongs. -/
structure InBounds : Prop where
  objects : ∀ o ∈ plan.checkpoint.pageObjects, 0 < o.pageCount.toNat ∧
    o.firstPage.toNat + o.pageCount.toNat ≤ plan.checkpoint.databasePageCount.toNat
  pages : ∀ d ∈ plan.deltas, ∀ page ∈ d.changedPages,
    page.pageNumber.toNat < d.endDatabasePageCount.toNat ∧
      page.bytes.length = plan.checkpoint.pageSize.toNat

/-- What the checks leave to the writers: a page of the checkpoint that no delta drops is in an object or
written by a delta, and a page that a delta adds and no later delta drops is written by it or by a later
one. -/
structure Written : Prop where
  checkpoint : ∀ p < plan.checkpoint.databasePageCount.toNat, plan.KeptFrom 0 p →
    (∃ o ∈ plan.checkpoint.pageObjects, o.Has p) ∨ ∃ d ∈ plan.deltas, d.Writes p
  added : ∀ i d p, plan.deltas[i]? = some d → d.baseDatabasePageCount.toNat ≤ p →
    plan.KeptFrom i p → ∃ j e, i ≤ j ∧ plan.deltas[j]? = some e ∧ e.Writes p

end RecoveryPlanV1

/-! ### What the checks say -/

theorem forM_inv {α : Type} {f : α → ContractResult Unit} {xs : List α} {u : Unit}
    (h : xs.forM f = .ok u) : ∀ x ∈ xs, f x = .ok () := by
  induction xs with
  | nil =>
    intro x hx
    cases hx
  | cons x xs ih =>
    obtain ⟨_, hx, hrest⟩ := bind_eq_ok.mp h
    intro y hy
    rcases List.mem_cons.mp hy with rfl | hy
    · exact hx
    · exact ih hrest y hy

theorem CheckpointV1.validate_objects {c : CheckpointV1} (h : c.validate = .ok ()) :
    ∀ o ∈ c.pageObjects, 0 < o.pageCount.toNat ∧
      o.firstPage.toNat + o.pageCount.toNat ≤ c.databasePageCount.toNat := by
  simp only [CheckpointV1.validate, bind_eq_ok] at h
  obtain ⟨_, -, _, -, _, -, _, -, _, -, _, -, _, -, hobjects⟩ := h
  intro o ho
  have hvalid := forM_inv hobjects o ho
  simp only [PageObjectRefV1.validate, bind_eq_ok, requireNonzero, require_eq_ok] at hvalid
  obtain ⟨_, -, _, hcount, _, -, _, -, hend⟩ := hvalid
  refine ⟨Nat.pos_of_ne_zero fun hzero => hcount ?_, hend⟩
  exact UInt64.toNat_inj.mp hzero

theorem DeltaV1.validate_pages {d : DeltaV1} (h : d.validate = .ok ()) :
    ∀ page ∈ d.changedPages, page.pageNumber.toNat < d.endDatabasePageCount.toNat ∧
      page.bytes.length = d.pageSize.toNat := by
  simp only [DeltaV1.validate, bind_eq_ok] at h
  obtain ⟨_, -, _, -, _, -, _, -, _, -, _, -, _, -, _, -, _, hpages, -⟩ := h
  intro page hpage
  have hvalid := forM_inv hpages page hpage
  simp only [DeltaPageV1.validate, bind_eq_ok, require_eq_ok] at hvalid
  obtain ⟨_, hlt, hlen⟩ := hvalid
  exact ⟨UInt64.lt_iff_toNat_lt.mp hlt, hlen⟩

/-- Each delta of the chain is valid and begins with the page count that is there. -/
theorem Linked.counts {pageSize : UInt32} {seq : Nat} {version pageCount final : UInt64}
    {ds : List DeltaV1} (h : Linked pageSize seq version pageCount ds final) :
    (∀ d ∈ ds, d.validate = .ok () ∧ d.pageSize = pageSize) ∧
      (∀ d, ds[0]? = some d → d.baseDatabasePageCount = pageCount) ∧
        ∀ i d e, ds[i]? = some d → ds[i + 1]? = some e →
          e.baseDatabasePageCount = d.endDatabasePageCount := by
  induction ds generalizing seq version pageCount with
  | nil =>
    refine ⟨?_, ?_, ?_⟩
    · intro d hd
      cases hd
    · intro d hd
      cases hd
    · intro i d e hd
      cases hd
  | cons d ds ih =>
    obtain ⟨⟨hvalid, -, -, hcount, hsize⟩, hrest⟩ := h
    obtain ⟨hall, hfirst, hnext⟩ := ih hrest
    refine ⟨?_, ?_, ?_⟩
    · intro e he
      rcases List.mem_cons.mp he with rfl | he
      · exact ⟨hvalid, hsize⟩
      · exact hall e he
    · intro e he
      rw [List.getElem?_cons_zero] at he
      cases he
      exact hcount
    · intro i e e' he he'
      rw [List.getElem?_cons_succ] at he'
      cases i with
      | zero =>
        cases he
        exact hfirst e' he'
      | succ i => exact hnext i e e' he he'

namespace RecoveryPlanV1

/-- The page counts of a plan go from one delta to the next. -/
structure Chained (plan : RecoveryPlanV1) : Prop where
  bounds : plan.InBounds
  first : ∀ d, plan.deltas[0]? = some d →
    d.baseDatabasePageCount = plan.checkpoint.databasePageCount
  next : ∀ i d e, plan.deltas[i]? = some d → plan.deltas[i + 1]? = some e →
    e.baseDatabasePageCount = d.endDatabasePageCount

theorem chained_of_isPlan {root : RootPointerV1} {checkpoints : List CheckpointV1}
    {deltas : List DeltaV1} {maxDeltaReplay : UInt64} {plan : RecoveryPlanV1}
    (h : IsPlan root checkpoints deltas maxDeltaReplay plan) : plan.Chained := by
  obtain ⟨hall, hfirst, hnext⟩ := h.linked.counts
  refine ⟨⟨h.valid |> CheckpointV1.validate_objects, fun d hd page hpage => ?_⟩, hfirst, hnext⟩
  obtain ⟨hvalid, hsize⟩ := hall d hd
  rw [← hsize]
  exact DeltaV1.validate_pages hvalid page hpage

section Coverage

variable {plan : RecoveryPlanV1} {i p : Nat} {d : DeltaV1}

/-- A page that no delta from the `i`th on drops is below the final count. -/
theorem lt_final_of_kept (hd : plan.deltas[i]? = some d) (hk : plan.KeptFrom i p) :
    p < plan.finalPageCount := by
  have hlt := (List.getElem?_eq_some_iff.mp hd).1
  have hlast : plan.deltas[plan.deltas.length - 1]? = plan.deltas.getLast? :=
    List.getLast?_eq_getElem?.symm
  unfold finalPageCount
  cases hl : plan.deltas.getLast? with
  | none =>
    rw [List.getLast?_eq_none_iff] at hl
    rw [hl] at hlt
    cases hlt
  | some e => exact hk (plan.deltas.length - 1) e (by omega) (hlast.trans hl)

/-- What a delta adds to the database nothing before it has, or is dropped before it. -/
theorem Chained.not_before (h : plan.Chained) (hd : plan.deltas[i]? = some d)
    (hp : d.baseDatabasePageCount.toNat ≤ p) {j : Nat} {e : DeltaV1} (hj : j < i)
    (he : plan.deltas[j]? = some e) (hw : e.Writes p) : ¬ plan.KeptFrom (j + 1) p := by
  intro hk
  obtain ⟨i, rfl⟩ : ∃ k, i = k + 1 := ⟨i - 1, by omega⟩
  have hlt : i < plan.deltas.length := by
    have hlt := (List.getElem?_eq_some_iff.mp hd).1
    omega
  obtain ⟨x, hx⟩ : ∃ x, plan.deltas[i]? = some x := ⟨_, List.getElem?_eq_getElem hlt⟩
  have hend : x.endDatabasePageCount.toNat ≤ p := by
    rw [← h.next i x d hx hd]
    exact hp
  rcases Nat.lt_or_eq_of_le (Nat.le_of_lt_succ hj) with hlt' | rfl
  · exact absurd (hk i x hlt' hx) (Nat.not_lt.mpr hend)
  · cases he.symm.trans hx
    obtain ⟨page, hpage, rfl⟩ := hw
    have hin := (h.bounds.pages _ (List.mem_of_getElem? hx) page hpage).1
    omega

/-- What a delta adds was not kept from the checkpoint on. -/
theorem Chained.not_kept (h : plan.Chained) (hd : plan.deltas[i]? = some d)
    (hp : d.baseDatabasePageCount.toNat ≤ p) (hc : p < plan.checkpoint.databasePageCount.toNat) :
    ¬ plan.KeptFrom 0 p := by
  intro hk
  cases i with
  | zero =>
    rw [h.first d hd] at hp
    omega
  | succ i =>
    have hlt : i < plan.deltas.length := by
      have hlt := (List.getElem?_eq_some_iff.mp hd).1
      omega
    obtain ⟨x, hx⟩ : ∃ x, plan.deltas[i]? = some x := ⟨_, List.getElem?_eq_getElem hlt⟩
    have hend := hk i x (Nat.zero_le i) hx
    rw [h.next i x d hx hd] at hp
    omega

theorem Chained.written (h : plan.Chained) (hall : ∀ p < plan.finalPageCount, plan.Covers p) :
    plan.Written where
  checkpoint p hp hk := by
    have hfinal : p < plan.finalPageCount := by
      cases hds : plan.deltas[0]? with
      | some d => exact lt_final_of_kept hds hk
      | none =>
        have hnil : plan.deltas = [] := List.eq_nil_of_length_eq_zero
          (Nat.le_zero.mp (List.getElem?_eq_none_iff.mp hds))
        unfold finalPageCount
        rw [hnil]
        exact hp
    rcases hall p hfinal with ⟨ho, -⟩ | ⟨i, d, hd, hw, -⟩
    · exact .inl ho
    · exact .inr ⟨d, List.mem_of_getElem? hd, hw⟩
  added i d p hd hp hk := by
    rcases hall p (lt_final_of_kept hd hk) with ⟨⟨o, ho, hhas⟩, hk0⟩ | ⟨j, e, he, hw, hkj⟩
    · have hbound := (h.bounds.objects o ho).2
      have hc : p < plan.checkpoint.databasePageCount.toNat := by
        have hlt := hhas.2
        omega
      exact absurd hk0 (h.not_kept hd hp hc)
    · refine ⟨j, e, ?_, he, hw⟩
      by_contra hlt
      exact h.not_before hd hp (Nat.lt_of_not_le hlt) he hw hkj

/-- A page that a delta adds and none drops after it is covered. -/
theorem Written.covers_added (hw : plan.Written) (hd : plan.deltas[i]? = some d)
    (hp : d.baseDatabasePageCount.toNat ≤ p) (hk : plan.KeptFrom i p) : plan.Covers p := by
  obtain ⟨j, e, hij, he, hwe⟩ := hw.added i d p hd hp hk
  exact .inr ⟨j, e, he, hwe, fun k x hjk hx => hk k x (by omega) hx⟩

theorem exists_last {P : Nat → Prop} {n : Nat} (h : ∃ i < n, P i) :
    ∃ i < n, P i ∧ ∀ j, i < j → j < n → ¬ P j := by
  induction n with
  | zero =>
    obtain ⟨i, hi, -⟩ := h
    cases hi
  | succ n ih =>
    by_cases hn : P n
    · exact ⟨n, Nat.lt_succ_self n, hn, fun j hj hjn => absurd hjn (by omega)⟩
    · obtain ⟨i, hi, hP⟩ := h
      have hin : i ≠ n := by
        rintro rfl
        exact hn hP
      obtain ⟨k, hk, hPk, hlast⟩ := ih ⟨i, by omega, hP⟩
      refine ⟨k, by omega, hPk, fun j hj hjn hPj => ?_⟩
      rcases Nat.lt_or_eq_of_le (Nat.le_of_lt_succ hjn) with hlt | rfl
      · exact hlast j hj hlt hPj
      · exact hn hPj

theorem Written.covers (hw : plan.Written) (h : plan.Chained) (hp : p < plan.finalPageCount) :
    plan.Covers p := by
  by_cases hdrop : ∃ i < plan.deltas.length, plan.Drops p i
  · -- the delta after the last of them adds the page again
    obtain ⟨i, hi, ⟨d, hd, hle⟩, hlast⟩ := exists_last hdrop
    have hkept : plan.KeptFrom (i + 1) p := by
      intro j e hj he
      by_contra hge
      exact hlast j hj (List.getElem?_eq_some_iff.mp he).1 ⟨e, he, Nat.le_of_not_lt hge⟩
    have hnext : i + 1 < plan.deltas.length := by
      by_contra hend
      have hl : plan.deltas.getLast? = some d := by
        rw [List.getLast?_eq_getElem?, show plan.deltas.length - 1 = i by omega, hd]
      unfold finalPageCount at hp
      rw [hl, Option.map_some, Option.getD_some] at hp
      omega
    obtain ⟨e, he⟩ : ∃ e, plan.deltas[i + 1]? = some e := ⟨_, List.getElem?_eq_getElem hnext⟩
    refine hw.covers_added he ?_ hkept
    rw [h.next i d e hd he]
    exact hle
  · have hk : plan.KeptFrom 0 p := by
      intro j d _ hd
      by_contra hge
      exact hdrop ⟨j, (List.getElem?_eq_some_iff.mp hd).1, d, hd, Nat.le_of_not_lt hge⟩
    by_cases hc : p < plan.checkpoint.databasePageCount.toNat
    · rcases hw.checkpoint p hc hk with ho | ⟨d, hd, hwd⟩
      · exact .inl ⟨ho, hk⟩
      · obtain ⟨i, hi⟩ := List.mem_iff_getElem?.mp hd
        exact .inr ⟨i, d, hi, hwd, fun j e _ he => hk j e (Nat.zero_le j) he⟩
    · -- a page past the checkpoint comes with the first delta
      cases hds : plan.deltas[0]? with
      | some d =>
        refine hw.covers_added hds ?_ hk
        rw [h.first d hds]
        exact Nat.le_of_not_lt hc
      | none =>
        have hnil : plan.deltas = [] := List.eq_nil_of_length_eq_zero
          (Nat.le_zero.mp (List.getElem?_eq_none_iff.mp hds))
        unfold finalPageCount at hp
        rw [hnil] at hp
        exact absurd hp hc

end Coverage

end RecoveryPlanV1

/-- A selected plan lies in its bounds, and it covers every page below its final count exactly when the
objects and the changed pages were written for it. -/
theorem plan_covers_iff {root : RootPointerV1} {checkpoints : List CheckpointV1}
    {deltas : List DeltaV1} {maxDeltaReplay : UInt64} {plan : RecoveryPlanV1}
    (h : selectRecoveryPlan root checkpoints deltas maxDeltaReplay = .ok plan) :
    plan.InBounds ∧ ((∀ p < plan.finalPageCount, plan.Covers p) ↔ plan.Written) := by
  have hroot : root.validate = .ok () := by
    obtain ⟨_, hr, -⟩ := bind_eq_ok.mp h
    exact returning_eq_ok.mp hr
  obtain ⟨-, -, -, hplan⟩ := (selectRecoveryPlan_eq_ok hroot).mp h
  have hchain := RecoveryPlanV1.chained_of_isPlan hplan
  exact ⟨hchain.bounds, hchain.written, fun hw p hp => hw.covers hchain hp⟩

namespace Example

/-- A checkpoint of three pages whose two objects share page 1 and leave out page 2. -/
def sparseCheckpoint : CheckpointV1 :=
  { checkpoint with
    databasePageCount := 3
    pageObjects :=
      [⟨0, 2, "tenant-a/scope-a/db-alpha/checkpoints/chk-0001/pages-0000-0001", 1234⟩,
        ⟨1, 1, "tenant-a/scope-a/db-alpha/checkpoints/chk-0001/pages-0001-0001", 1234⟩] }

end Example

open Example

theorem example_plan_covers : (⟨checkpoint, [delta]⟩ : RecoveryPlanV1).InBounds ∧
    ((∀ p < (⟨checkpoint, [delta]⟩ : RecoveryPlanV1).finalPageCount,
      (⟨checkpoint, [delta]⟩ : RecoveryPlanV1).Covers p) ↔
        (⟨checkpoint, [delta]⟩ : RecoveryPlanV1).Written) := by
  have hselect : selectRecoveryPlan root₁ [checkpoint] [delta] 128 = .ok ⟨checkpoint, [delta]⟩ := by
    decide +kernel
  exact plan_covers_iff hselect

/-- The plan is selected, page 2 is in no object and in no delta, and page 1 is in two objects. -/
theorem sparse_plan_selected :
    selectRecoveryPlan root [sparseCheckpoint] [] 128 = .ok ⟨sparseCheckpoint, []⟩ ∧
      2 < (⟨sparseCheckpoint, []⟩ : RecoveryPlanV1).finalPageCount ∧
      ¬ (⟨sparseCheckpoint, []⟩ : RecoveryPlanV1).Covers 2 ∧
      ∃ o ∈ sparseCheckpoint.pageObjects, ∃ o' ∈ sparseCheckpoint.pageObjects,
        o ≠ o' ∧ o.Has 1 ∧ o'.Has 1 := by
  refine ⟨by decide +kernel, by decide, ?_, ?_⟩
  · rintro (⟨⟨o, ho, hhas⟩, -⟩ | ⟨i, d, hd, -⟩)
    · rcases List.mem_cons.mp ho with rfl | ho
      · exact absurd hhas.2 (by decide)
      · cases List.mem_singleton.mp ho
        exact absurd hhas.2 (by decide)
    · cases hd
  · refine ⟨_, List.mem_cons_self, _, List.mem_cons_of_mem _ List.mem_cons_self, ?_, ?_, ?_⟩
    · decide
    · exact ⟨by decide, by decide⟩
    · exact ⟨by decide, by decide⟩

end Turbolite.Sashimono
