import Mathlib.Data.Finset.Insert
import Mathlib.Data.Finset.Lattice.Lemmas
import Turbolite.Lib.Runs

/-!
# Turbolite.CursorChain

The cursor contract of a follower (`specs/cursor_chain.qnt`): deltas are applied in order, under the fence
of writer and lease epoch and along the chain of checksums; a follower may be promoted once; candidates
that contradict each other are fatal. The specification is checked there for two writers and three sequence
numbers. Here writers, checksums and fingerprints are any types, numbers have no bound, and the first base
is any base.

What a follower has applied is a list of deltas that lead from its base to its cursor (`Chained`).
`cursor_chain_safe` is the `safety` of the specification in every reachable state; `followers_agree` says
that followers of one base never disagree as long as nobody equivocates.
-/

namespace Turbolite.CursorChain

open Runs

/-! ### Bases and deltas -/

/-- A base: the database at one position of the chain. -/
structure Base (W C : Type) where
  seq : Nat
  epoch : Nat
  writer : W
  checksum : C
  endPageCount : Nat
  deriving DecidableEq, Repr

/-- A delta: the pages that lead from one position to the next. -/
structure Delta (W C F : Type) where
  seq : Nat
  epoch : Nat
  writer : W
  prevChecksum : C
  checksum : C
  payloadFingerprint : F
  endPageCount : Nat
  deriving DecidableEq, Repr

variable {W C F : Type}

namespace Delta

/-- Two deltas of one writer for one place of the chain. -/
def SameCandidateSlot (a b : Delta W C F) : Prop :=
  a.seq = b.seq ∧ a.epoch = b.epoch ∧ a.writer = b.writer

/-- Two deltas of one writer for one place that differ. -/
def Divergent (a b : Delta W C F) : Prop :=
  a.SameCandidateSlot b ∧
    (a.prevChecksum ≠ b.prevChecksum ∨ a.checksum ≠ b.checksum ∨
      a.payloadFingerprint ≠ b.payloadFingerprint ∨ a.endPageCount ≠ b.endPageCount)

/-- Two deltas that agree in all but the checksum. -/
def SamePayloadShape (a b : Delta W C F) : Prop :=
  a.seq = b.seq ∧ a.epoch = b.epoch ∧ a.writer = b.writer ∧ a.prevChecksum = b.prevChecksum ∧
    a.payloadFingerprint = b.payloadFingerprint ∧ a.endPageCount = b.endPageCount

end Delta

/-- Some two of the deltas diverge. -/
def HasEquivocation (candidates : Finset (Delta W C F)) : Prop :=
  ∃ a ∈ candidates, ∃ b ∈ candidates, a.Divergent b

/-- Two deltas of different contents share a checksum. -/
def HasChecksumCollision (candidates : Finset (Delta W C F)) : Prop :=
  ∃ a ∈ candidates, ∃ b ∈ candidates, a.checksum = b.checksum ∧ ¬ a.SamePayloadShape b

/-- There is neither among the deltas. -/
def CandidatesWellFormed (candidates : Finset (Delta W C F)) : Prop :=
  ¬ HasEquivocation candidates ∧ ¬ HasChecksumCollision candidates

theorem candidatesWellFormed_empty :
    CandidatesWellFormed (∅ : Finset (Delta W C F)) := by
  simp [CandidatesWellFormed, HasEquivocation, HasChecksumCollision]

/-- Two candidates of one slot are one, unless somebody equivocated. -/
theorem eq_of_slot {candidates : Finset (Delta W C F)} (hno : ¬ HasEquivocation candidates)
    {a b : Delta W C F} (ha : a ∈ candidates) (hb : b ∈ candidates) (hslot : a.SameCandidateSlot b) :
    a = b := by
  by_contra hne
  refine hno ⟨a, ha, b, hb, hslot, ?_⟩
  by_contra hfields
  push Not at hfields
  obtain ⟨hp, hc, hf, he⟩ := hfields
  obtain ⟨h1, h2, h3⟩ := hslot
  cases a
  cases b
  simp_all

/-! ### Chains of deltas -/

/-- Where a follower is. -/
@[ext]
structure Cursor (C : Type) where
  seq : Nat
  anchor : C
  pageCount : Nat
  deriving DecidableEq

/-- The cursor behind a delta. -/
def Delta.cursor (d : Delta W C F) : Cursor C := ⟨d.seq, d.checksum, d.endPageCount⟩

/-- The position of a base. -/
def Base.cursor (b : Base W C) : Cursor C := ⟨b.seq, b.checksum, b.endPageCount⟩

@[simp] theorem Base.cursor_seq (b : Base W C) : b.cursor.seq = b.seq := rfl

@[simp] theorem Base.cursor_anchor (b : Base W C) : b.cursor.anchor = b.checksum := rfl

@[simp] theorem Base.cursor_pageCount (b : Base W C) : b.cursor.pageCount = b.endPageCount := rfl

@[simp] theorem Delta.cursor_seq (d : Delta W C F) : d.cursor.seq = d.seq := rfl

/-- The deltas lead from one cursor to another, each the next one under the fence. -/
def Chained (epoch : Nat) (writer : W) : Cursor C → List (Delta W C F) → Cursor C → Prop
  | start, [], final => start = final
  | start, d :: ds, final =>
    (d.seq = start.seq + 1 ∧ d.epoch = epoch ∧ d.writer = writer ∧ d.prevChecksum = start.anchor) ∧
      Chained epoch writer d.cursor ds final

namespace Chained

variable {epoch : Nat} {writer : W} {start final : Cursor C} {ds : List (Delta W C F)} {d : Delta W C F}

theorem append_singleton (h : Chained epoch writer start ds final) (hseq : d.seq = final.seq + 1)
    (hepoch : d.epoch = epoch) (hwriter : d.writer = writer) (hprev : d.prevChecksum = final.anchor) :
    Chained epoch writer start (ds ++ [d]) d.cursor := by
  induction ds generalizing start with
  | nil =>
    obtain rfl : start = final := h
    exact ⟨⟨hseq, hepoch, hwriter, hprev⟩, rfl⟩
  | cons e ds ih => exact ⟨h.1, ih h.2⟩

theorem seq_eq (h : Chained epoch writer start ds final) : final.seq = start.seq + ds.length := by
  induction ds generalizing start with
  | nil =>
    obtain rfl : start = final := h
    simp
  | cons d ds ih =>
    have hrest := ih h.2
    have hseq : d.cursor.seq = start.seq + 1 := h.1.1
    simp only [List.length_cons]
    omega

theorem bounds (h : Chained epoch writer start ds final) (hd : d ∈ ds) :
    start.seq < d.seq ∧ d.seq ≤ final.seq := by
  induction ds generalizing start with
  | nil => simp at hd
  | cons e ds ih =>
    have hseq : e.seq = start.seq + 1 := h.1.1
    have hfinal : final.seq = e.seq + ds.length := seq_eq h.2
    rcases List.mem_cons.mp hd with rfl | hd
    · omega
    · have hlt : e.seq < d.seq ∧ d.seq ≤ final.seq := ih h.2 hd
      omega

theorem fence (h : Chained epoch writer start ds final) (hd : d ∈ ds) :
    d.epoch = epoch ∧ d.writer = writer := by
  induction ds generalizing start with
  | nil => simp at hd
  | cons e ds ih =>
    rcases List.mem_cons.mp hd with rfl | hd
    · exact ⟨h.1.2.1, h.1.2.2.1⟩
    · exact ih h.2 hd

theorem unique (h : Chained epoch writer start ds final) {a b : Delta W C F} (ha : a ∈ ds)
    (hb : b ∈ ds) (hseq : a.seq = b.seq) : a = b := by
  induction ds generalizing start with
  | nil => simp at ha
  | cons e ds ih =>
    rcases List.mem_cons.mp ha with ha' | ha' <;> rcases List.mem_cons.mp hb with hb' | hb'
    · exact ha'.trans hb'.symm
    · have hlt : e.seq < b.seq := (bounds h.2 hb').1
      rw [ha'] at hseq
      omega
    · have hlt : e.seq < a.seq := (bounds h.2 ha').1
      rw [hb'] at hseq
      omega
    · exact ih h.2 ha' hb'

theorem exists_of_seq (h : Chained epoch writer start ds final) {n : Nat} (hlow : start.seq < n)
    (hhigh : n ≤ final.seq) : ∃ d ∈ ds, d.seq = n := by
  induction ds generalizing start with
  | nil =>
    obtain rfl : start = final := h
    omega
  | cons e ds ih =>
    have hseq : e.seq = start.seq + 1 := h.1.1
    by_cases hn : n = e.seq
    · exact ⟨e, List.mem_cons_self, hn.symm⟩
    · have hgt : e.cursor.seq < n := by
        show e.seq < n
        omega
      obtain ⟨d, hd, hdn⟩ := ih h.2 hgt
      exact ⟨d, List.mem_cons_of_mem e hd, hdn⟩

/-- A delta continues the base, or the delta before it. -/
theorem prev (h : Chained epoch writer start ds final) (hd : d ∈ ds) :
    (d.seq = start.seq + 1 ∧ d.prevChecksum = start.anchor) ∨
      (d.seq ≠ start.seq + 1 ∧
        ∃ p ∈ ds, p.seq = d.seq - 1 ∧ d.prevChecksum = p.checksum) := by
  induction ds generalizing start with
  | nil => simp at hd
  | cons e ds ih =>
    have hseq : e.seq = start.seq + 1 := h.1.1
    rcases List.mem_cons.mp hd with rfl | hd
    · exact .inl ⟨hseq, h.1.2.2.2⟩
    · have hlt : e.seq < d.seq := (bounds h.2 hd).1
      refine .inr ⟨by omega, ?_⟩
      rcases ih h.2 hd with ⟨hfirst, hprev⟩ | ⟨-, p, hp, hpseq, hprev⟩
      · have hfirst : d.seq = e.seq + 1 := hfirst
        exact ⟨e, List.mem_cons_self, by omega, hprev⟩
      · exact ⟨p, List.mem_cons_of_mem e hp, hpseq, hprev⟩

/-- The last delta leads to the final cursor. -/
theorem last (h : Chained epoch writer start ds final) :
    start = final ∨ ∃ d ∈ ds, d.cursor = final := by
  induction ds generalizing start with
  | nil => exact .inl h
  | cons e ds ih =>
    refine .inr ?_
    rcases ih h.2 with heq | ⟨d, hd, hcur⟩
    · exact ⟨e, List.mem_cons_self, heq⟩
    · exact ⟨d, List.mem_cons_of_mem e hd, hcur⟩

/-- Of two chains with one start and one fence, the shorter is where the longer begins, unless their
deltas equivocate. -/
theorem prefix_of_le {candidates : Finset (Delta W C F)} (hno : ¬ HasEquivocation candidates)
    {final' : Cursor C} {ds' : List (Delta W C F)} (h : Chained epoch writer start ds final)
    (h' : Chained epoch writer start ds' final') (hmem : ∀ d ∈ ds, d ∈ candidates)
    (hmem' : ∀ d ∈ ds', d ∈ candidates) (hle : ds.length ≤ ds'.length) : ds <+: ds' := by
  induction ds generalizing start ds' with
  | nil => exact List.nil_prefix
  | cons a ds ih =>
    cases ds' with
    | nil => simp at hle
    | cons b ds' =>
      obtain ⟨⟨haseq, haepoch, hawriter, haprev⟩, hrest⟩ := h
      obtain ⟨⟨hbseq, hbepoch, hbwriter, hbprev⟩, hrest'⟩ := h'
      have hslot : a.SameCandidateSlot b :=
        ⟨haseq.trans hbseq.symm, haepoch.trans hbepoch.symm, hawriter.trans hbwriter.symm⟩
      have hsame : a = b :=
        eq_of_slot hno (hmem a List.mem_cons_self) (hmem' b List.mem_cons_self) hslot
      subst hsame
      refine List.prefix_cons_inj a |>.mpr (ih hrest hrest' ?_ ?_ (by simpa using hle))
      · intro d hd
        exact hmem d (List.mem_cons_of_mem a hd)
      · intro d hd
        exact hmem' d (List.mem_cons_of_mem a hd)

/-- The page count of a chain is that of its last delta, or of its start. -/
theorem pageCount (h : Chained epoch writer start ds final) :
    if final.seq = start.seq then final.pageCount = start.pageCount
    else ∃ d ∈ ds, d.seq = final.seq ∧ d.endPageCount = final.pageCount := by
  rcases h.last with rfl | ⟨d, hd, rfl⟩
  · simp
  · have hlt : start.seq < d.seq := (h.bounds hd).1
    have hne : d.cursor.seq ≠ start.seq := Nat.ne_of_gt hlt
    rw [if_neg hne]
    exact ⟨d, hd, rfl, rfl⟩

end Chained

/-! ### Steps -/

/-- The variables of the specification. -/
structure State (W C F : Type) where
  root : Base W C
  leaseEpoch : Nat
  leaseHolder : W
  deltas : Finset (Delta W C F) := ∅
  followerBaseSeq : Nat
  followerBaseChecksum : C
  followerSeq : Nat
  followerEpoch : Nat
  followerWriter : W
  chainAnchor : C
  pageCount : Nat
  applied : Finset (Delta W C F) := ∅
  fatal : Bool := false
  promoted : Bool := false
  promotedFromSeq : Nat
  promotedFromPageCount : Nat
  promotedFromApplied : Finset (Delta W C F) := ∅

/-- The initial state. -/
def init (initialBase : Base W C) : State W C F where
  root := initialBase
  leaseEpoch := initialBase.epoch
  leaseHolder := initialBase.writer
  followerBaseSeq := initialBase.seq
  followerBaseChecksum := initialBase.checksum
  followerSeq := initialBase.seq
  followerEpoch := initialBase.epoch
  followerWriter := initialBase.writer
  chainAnchor := initialBase.checksum
  pageCount := initialBase.endPageCount
  promotedFromSeq := initialBase.seq
  promotedFromPageCount := initialBase.endPageCount

/-- The position of the follower. -/
def State.cursor (s : State W C F) : Cursor C := ⟨s.followerSeq, s.chainAnchor, s.pageCount⟩

@[simp] theorem State.cursor_seq (s : State W C F) : s.cursor.seq = s.followerSeq := rfl

@[simp] theorem State.cursor_pageCount (s : State W C F) : s.cursor.pageCount = s.pageCount := rfl

/-- The actions of the specification. -/
inductive Event (W C F : Type) where
  | appendDelta (d : Delta W C F)
  | recordEquivocation (a b : Delta W C F)
  | applyNext (d : Delta W C F)
  | promote (newWriter : W)
  | noStateChange
  deriving DecidableEq

variable [DecidableEq W] [DecidableEq C] [DecidableEq F]

instance (a b : Delta W C F) : Decidable (a.Divergent b) :=
  inferInstanceAs (Decidable ((_ ∧ _ ∧ _) ∧ (_ ∨ _ ∨ _ ∨ _)))

instance (a b : Delta W C F) : Decidable (a.SamePayloadShape b) :=
  inferInstanceAs (Decidable (_ ∧ _ ∧ _ ∧ _ ∧ _ ∧ _))

instance (candidates : Finset (Delta W C F)) : Decidable (HasEquivocation candidates) :=
  inferInstanceAs (Decidable (∃ a ∈ candidates, ∃ b ∈ candidates, a.Divergent b))

instance (candidates : Finset (Delta W C F)) : Decidable (HasChecksumCollision candidates) :=
  inferInstanceAs (Decidable (∃ a ∈ candidates, ∃ b ∈ candidates,
    a.checksum = b.checksum ∧ ¬ a.SamePayloadShape b))

instance (candidates : Finset (Delta W C F)) : Decidable (CandidatesWellFormed candidates) :=
  inferInstanceAs (Decidable (_ ∧ _))

/-- The candidate is the next one of the follower. -/
def State.Accepts (s : State W C F) (d : Delta W C F) : Prop :=
  s.fatal = false ∧ d ∈ s.deltas ∧ d.seq = s.followerSeq + 1 ∧ d.epoch = s.followerEpoch ∧
    d.writer = s.followerWriter ∧ d.prevChecksum = s.chainAnchor

instance (s : State W C F) (d : Delta W C F) : Decidable (s.Accepts d) :=
  inferInstanceAs (Decidable (_ ∧ _ ∧ _ ∧ _ ∧ _ ∧ _))

/-- The follower applies a delta. -/
def State.apply (s : State W C F) (d : Delta W C F) : State W C F :=
  { s with
    followerSeq := d.seq
    chainAnchor := d.checksum
    pageCount := d.endPageCount
    applied := insert d s.applied }

/-- The follower becomes the writer: its position is the new base. -/
def State.promote (s : State W C F) (promotedBaseChecksum : C) (newWriter : W) : State W C F :=
  { s with
    root :=
      { seq := s.followerSeq
        epoch := s.leaseEpoch + 1
        writer := newWriter
        checksum := promotedBaseChecksum
        endPageCount := s.pageCount }
    leaseEpoch := s.leaseEpoch + 1
    leaseHolder := newWriter
    followerBaseSeq := s.followerSeq
    followerBaseChecksum := promotedBaseChecksum
    followerEpoch := s.leaseEpoch + 1
    followerWriter := newWriter
    chainAnchor := promotedBaseChecksum
    applied := ∅
    promoted := true
    promotedFromSeq := s.followerSeq
    promotedFromPageCount := s.pageCount
    promotedFromApplied := s.applied }

/-- The next state; none where the action is not enabled. -/
def step (promotedBaseChecksum : C) (s : State W C F) : Event W C F → Option (State W C F)
  | .appendDelta d =>
    if CandidatesWellFormed (insert d s.deltas) then some { s with deltas := insert d s.deltas }
    else none
  | .recordEquivocation a b =>
    if a.Divergent b then some { s with deltas := insert a (insert b s.deltas), fatal := true }
    else none
  | .applyNext d => if s.Accepts d then some (s.apply d) else none
  | .promote newWriter =>
    if s.fatal = false ∧ s.promoted = false then some (s.promote promotedBaseChecksum newWriter)
    else none
  | .noStateChange => some s

/-! ### The invariant -/

/-- `ds` is what the follower has applied since its base. -/
structure Applies (s : State W C F) (ds : List (Delta W C F)) : Prop where
  chained : Chained s.root.epoch s.root.writer s.root.cursor ds s.cursor
  applied : s.applied = ds.toFinset
  published : ∀ d ∈ ds, d ∈ s.deltas

/-- `ds` is what the promoted follower had applied since the first base. -/
structure PromotedFrom (initialBase : Base W C) (s : State W C F) (ds : List (Delta W C F))
    (anchor : C) : Prop where
  chained : Chained initialBase.epoch initialBase.writer initialBase.cursor ds
    ⟨s.promotedFromSeq, anchor, s.promotedFromPageCount⟩
  applied : s.promotedFromApplied = ds.toFinset
  seq : s.root.seq = s.promotedFromSeq
  pageCount : s.root.endPageCount = s.promotedFromPageCount

/-- What every reachable state keeps. -/
structure Inv (initialBase : Base W C) (s : State W C F) : Prop where
  lease : s.root.epoch = s.leaseEpoch ∧ s.root.writer = s.leaseHolder
  base : s.followerBaseSeq = s.root.seq ∧ s.followerBaseChecksum = s.root.checksum
  fence : s.followerEpoch = s.leaseEpoch ∧ s.followerWriter = s.leaseHolder
  applies : ∃ ds, Applies s ds
  unpromoted : s.promoted = false → s.root = initialBase
  promoted : s.promoted = true → ∃ ds anchor, PromotedFrom initialBase s ds anchor
  wellFormed : s.fatal = true ∨ CandidatesWellFormed s.deltas

theorem inv_init (initialBase : Base W C) : Inv initialBase (init initialBase : State W C F) where
  lease := ⟨rfl, rfl⟩
  base := ⟨rfl, rfl⟩
  fence := ⟨rfl, rfl⟩
  applies := ⟨[], rfl, rfl, by simp⟩
  unpromoted _ := rfl
  promoted h := by simp [init] at h
  wellFormed := .inr candidatesWellFormed_empty

section Step

variable {initialBase : Base W C} {promotedBaseChecksum : C} {s s' : State W C F}

/-- More candidates leave the follower alone. -/
theorem Inv.withDeltas (h : Inv initialBase s) {deltas : Finset (Delta W C F)} {fatal : Bool}
    (hsub : s.deltas ⊆ deltas) (hwf : fatal = true ∨ CandidatesWellFormed deltas) :
    Inv initialBase { s with deltas := deltas, fatal := fatal } where
  lease := h.lease
  base := h.base
  fence := h.fence
  applies := by
    obtain ⟨ds, hds⟩ := h.applies
    exact ⟨ds, hds.chained, hds.applied, fun d hd => hsub (hds.published d hd)⟩
  unpromoted := h.unpromoted
  promoted hp := by
    obtain ⟨ds, anchor, hds⟩ := h.promoted hp
    exact ⟨ds, anchor, hds.chained, hds.applied, hds.seq, hds.pageCount⟩
  wellFormed := hwf

theorem Inv.apply (h : Inv initialBase s) {d : Delta W C F} (hd : s.Accepts d) :
    Inv initialBase (s.apply d) where
  lease := h.lease
  base := h.base
  fence := h.fence
  applies := by
    obtain ⟨-, hmem, hseq, hepoch, hwriter, hprev⟩ := hd
    obtain ⟨ds, hds⟩ := h.applies
    refine ⟨ds ++ [d], ?_, ?_, ?_⟩
    · refine hds.chained.append_singleton hseq ?_ ?_ hprev
      · rw [hepoch, h.fence.1, h.lease.1]
      · rw [hwriter, h.fence.2, h.lease.2]
    · ext e
      simp [State.apply, hds.applied]
    · intro e he
      rcases List.mem_append.mp he with he | he
      · exact hds.published e he
      · rwa [List.mem_singleton.mp he]
  unpromoted := h.unpromoted
  promoted hp := by
    obtain ⟨ds, anchor, hds⟩ := h.promoted hp
    exact ⟨ds, anchor, hds.chained, hds.applied, hds.seq, hds.pageCount⟩
  wellFormed := h.wellFormed

theorem Inv.promote (h : Inv initialBase s) (hp : s.promoted = false) (newWriter : W) :
    Inv initialBase (s.promote promotedBaseChecksum newWriter) where
  lease := ⟨rfl, rfl⟩
  base := ⟨rfl, rfl⟩
  fence := ⟨rfl, rfl⟩
  applies := ⟨[], rfl, rfl, by simp⟩
  unpromoted hn := by simp [State.promote] at hn
  promoted _ := by
    obtain ⟨ds, hds⟩ := h.applies
    have hroot := h.unpromoted hp
    exact ⟨ds, s.chainAnchor, hroot ▸ hds.chained, hds.applied, rfl, rfl⟩
  wellFormed := h.wellFormed

theorem inv_step {e : Event W C F} (h : Inv initialBase s)
    (hs : step promotedBaseChecksum s e = some s') : Inv initialBase s' := by
  cases e with
  | appendDelta d =>
    simp only [step, Option.ite_none_right_eq_some, Option.some.injEq] at hs
    obtain ⟨hwf, rfl⟩ := hs
    exact h.withDeltas (Finset.subset_insert d s.deltas) (.inr hwf)
  | recordEquivocation a b =>
    simp only [step, Option.ite_none_right_eq_some, Option.some.injEq] at hs
    obtain ⟨-, rfl⟩ := hs
    refine h.withDeltas (fun x hx => ?_) (.inl rfl)
    exact Finset.mem_insert_of_mem (Finset.mem_insert_of_mem hx)
  | applyNext d =>
    simp only [step, Option.ite_none_right_eq_some, Option.some.injEq] at hs
    obtain ⟨hd, rfl⟩ := hs
    exact h.apply hd
  | promote newWriter =>
    simp only [step, Option.ite_none_right_eq_some, Option.some.injEq] at hs
    obtain ⟨⟨-, hp⟩, rfl⟩ := hs
    exact h.promote hp newWriter
  | noStateChange =>
    cases hs
    exact h

theorem inv_run {es : List (Event W C F)}
    (h : run (step promotedBaseChecksum) (init initialBase) es = some s) : Inv initialBase s :=
  run_preserves (fun _ _ _ hi hs => inv_step hi hs) (inv_init initialBase) h

end Step

/-! ### Safety -/

/-- `safety` of the specification. -/
structure Safety (initialBase : Base W C) (s : State W C F) : Prop where
  rootMatchesLease : s.root.epoch = s.leaseEpoch ∧ s.root.writer = s.leaseHolder
  followerBaseMatchesRoot : s.followerBaseSeq = s.root.seq ∧ s.followerBaseChecksum = s.root.checksum
  promotedAppliedPrefixExact : s.promoted = true →
    s.root.seq = s.promotedFromSeq ∧ s.root.endPageCount = s.promotedFromPageCount ∧
    (∀ seq, initialBase.seq < seq → seq ≤ s.promotedFromSeq →
      ∃ d ∈ s.promotedFromApplied, d.seq = seq) ∧
    (∀ d ∈ s.promotedFromApplied, initialBase.seq < d.seq ∧ d.seq ≤ s.promotedFromSeq ∧
      d.epoch = initialBase.epoch ∧ d.writer = initialBase.writer) ∧
    if s.promotedFromSeq = initialBase.seq then s.promotedFromPageCount = initialBase.endPageCount
    else ∃ d ∈ s.promotedFromApplied,
      d.seq = s.promotedFromSeq ∧ d.endPageCount = s.promotedFromPageCount
  base_le : s.followerBaseSeq ≤ s.followerSeq
  followerEpoch : s.followerEpoch = s.leaseEpoch
  followerWriter : s.followerWriter = s.leaseHolder
  oneAppliedPerSeq : ∀ a ∈ s.applied, ∀ b ∈ s.applied, a.seq = b.seq → a = b
  contiguousApplied : ∀ seq, s.followerBaseSeq < seq → seq ≤ s.followerSeq →
    ∃ d ∈ s.applied, d.seq = seq
  appliedMatchesFence : ∀ d ∈ s.applied, d.epoch = s.followerEpoch ∧ d.writer = s.followerWriter
  appliedChainsFromBase : ∀ d ∈ s.applied,
    if d.seq = s.followerBaseSeq + 1 then d.prevChecksum = s.followerBaseChecksum
    else ∃ p ∈ s.applied, p.seq = d.seq - 1 ∧ d.prevChecksum = p.checksum
  pageCountMatchesCursor :
    if s.followerSeq = s.followerBaseSeq then s.pageCount = s.root.endPageCount
    else ∃ d ∈ s.applied, d.seq = s.followerSeq ∧ s.pageCount = d.endPageCount
  equivocationIsFatal : HasEquivocation s.deltas → s.fatal = true
  checksumCollisionIsFatal : HasChecksumCollision s.deltas → s.fatal = true

theorem Inv.promotedAppliedPrefixExact {initialBase : Base W C} {s : State W C F}
    (h : Inv initialBase s) (hp : s.promoted = true) :
    s.root.seq = s.promotedFromSeq ∧ s.root.endPageCount = s.promotedFromPageCount ∧
    (∀ seq, initialBase.seq < seq → seq ≤ s.promotedFromSeq →
      ∃ d ∈ s.promotedFromApplied, d.seq = seq) ∧
    (∀ d ∈ s.promotedFromApplied, initialBase.seq < d.seq ∧ d.seq ≤ s.promotedFromSeq ∧
      d.epoch = initialBase.epoch ∧ d.writer = initialBase.writer) ∧
    if s.promotedFromSeq = initialBase.seq then s.promotedFromPageCount = initialBase.endPageCount
    else ∃ d ∈ s.promotedFromApplied,
      d.seq = s.promotedFromSeq ∧ d.endPageCount = s.promotedFromPageCount := by
  obtain ⟨ds, anchor, hds⟩ := h.promoted hp
  simp only [hds.applied, List.mem_toFinset]
  refine ⟨hds.seq, hds.pageCount, ?_, ?_, hds.chained.pageCount⟩
  · intro seq hlow hhigh
    exact hds.chained.exists_of_seq hlow hhigh
  · intro d hd
    obtain ⟨hlow, hhigh⟩ := hds.chained.bounds hd
    obtain ⟨hepoch, hwriter⟩ := hds.chained.fence hd
    exact ⟨hlow, hhigh, hepoch, hwriter⟩

theorem Inv.safety {initialBase : Base W C} {s : State W C F} (h : Inv initialBase s) :
    Safety initialBase s := by
  obtain ⟨ds, hds⟩ := h.applies
  have hchain := hds.chained
  constructor
  case rootMatchesLease => exact h.lease
  case followerBaseMatchesRoot => exact h.base
  case promotedAppliedPrefixExact => exact h.promotedAppliedPrefixExact
  case base_le =>
    have hseq : s.followerSeq = s.root.seq + ds.length := hchain.seq_eq
    rw [h.base.1]
    omega
  case followerEpoch => exact h.fence.1
  case followerWriter => exact h.fence.2
  case oneAppliedPerSeq =>
    simp only [hds.applied, List.mem_toFinset]
    intro a ha b hb hseq
    exact hchain.unique ha hb hseq
  case contiguousApplied =>
    simp only [hds.applied, List.mem_toFinset, h.base.1]
    intro seq hlow hhigh
    exact hchain.exists_of_seq hlow hhigh
  case appliedMatchesFence =>
    simp only [hds.applied, List.mem_toFinset, h.fence.1, h.fence.2, ← h.lease.1, ← h.lease.2]
    intro d hd
    exact hchain.fence hd
  case appliedChainsFromBase =>
    simp only [hds.applied, List.mem_toFinset, h.base.1, h.base.2]
    intro d hd
    rcases hchain.prev hd with ⟨hfirst, hprev⟩ | ⟨hlater, hprev⟩
    · rw [Base.cursor_seq] at hfirst
      rw [if_pos hfirst]
      exact hprev
    · rw [Base.cursor_seq] at hlater
      rw [if_neg hlater]
      exact hprev
  case pageCountMatchesCursor =>
    simp only [hds.applied, List.mem_toFinset, h.base.1]
    simpa [eq_comm] using hchain.pageCount
  case equivocationIsFatal =>
    intro heq
    rcases h.wellFormed with hfatal | hwf
    · exact hfatal
    · exact absurd heq hwf.1
  case checksumCollisionIsFatal =>
    intro hcol
    rcases h.wellFormed with hfatal | hwf
    · exact hfatal
    · exact absurd hcol hwf.2

/-- Every state a run reaches is safe. -/
theorem cursor_chain_safe {initialBase : Base W C} {promotedBaseChecksum : C}
    {es : List (Event W C F)} {s : State W C F}
    (h : run (step promotedBaseChecksum) (init initialBase) es = some s) : Safety initialBase s :=
  (inv_run h).safety

namespace Example

/-- The base of the runs below. -/
def base : Base String String := ⟨0, 0, "A", "base0", 0⟩

/-- The first delta after the base. -/
def delta₁ : Delta String String String := ⟨1, 0, "A", "base0", "d1", "p1", 1⟩

/-- The delta after it. -/
def delta₂ : Delta String String String := ⟨2, 0, "A", "d1", "d2", "p2", 2⟩

/-- A follower that is promoted after the first delta. -/
def promotion : List (Event String String String) :=
  [.appendDelta delta₁, .appendDelta delta₂, .applyNext delta₁, .promote "B"]

/-- A follower that has seen the first delta only. -/
def behind : List (Event String String String) := [.appendDelta delta₁, .applyNext delta₁]

/-- A follower of two deltas, the second of which was appended first. -/
def ahead : List (Event String String String) :=
  [.appendDelta delta₂, .appendDelta delta₁, .applyNext delta₁, .applyNext delta₂]

end Example

open Example in
theorem promotion_safe : ∃ s, run (step "base1") (init base) promotion = some s ∧ Safety base s := by
  refine ⟨_, rfl, ?_⟩
  exact cursor_chain_safe (show run (step "base1") (init base) promotion = some _ from rfl)

/-! ### Applying a chain -/

omit [DecidableEq W] [DecidableEq C] [DecidableEq F] in
theorem CandidatesWellFormed.mono {candidates more : Finset (Delta W C F)}
    (h : CandidatesWellFormed more) (hsub : candidates ⊆ more) : CandidatesWellFormed candidates := by
  constructor
  · intro hno
    obtain ⟨a, ha, b, hb, hab⟩ := hno
    exact h.1 ⟨a, hsub ha, b, hsub hb, hab⟩
  · intro hno
    obtain ⟨a, ha, b, hb, hab⟩ := hno
    exact h.2 ⟨a, hsub ha, b, hsub hb, hab⟩

/-- The deltas of a chain are well-formed candidates when no two of them have one checksum. -/
theorem Chained.wellFormed {epoch : Nat} {writer : W} {start final : Cursor C}
    {ds : List (Delta W C F)} (h : Chained epoch writer start ds final)
    (hinj : ∀ a ∈ ds, ∀ b ∈ ds, a.checksum = b.checksum → a = b) :
    CandidatesWellFormed ds.toFinset := by
  simp only [CandidatesWellFormed, HasEquivocation, HasChecksumCollision, List.mem_toFinset]
  constructor
  · intro hno
    obtain ⟨a, ha, b, hb, hslot, hfields⟩ := hno
    obtain rfl := h.unique ha hb hslot.1
    simp at hfields
  · intro hno
    obtain ⟨a, ha, b, hb, hsum, hshape⟩ := hno
    obtain rfl := hinj a ha b hb hsum
    simp [Delta.SamePayloadShape] at hshape

theorem run_appendDelta (promotedBaseChecksum : C) (s : State W C F) {ds : List (Delta W C F)}
    (hwf : CandidatesWellFormed (s.deltas ∪ ds.toFinset)) :
    run (step promotedBaseChecksum) s (ds.map .appendDelta) =
      some { s with deltas := s.deltas ∪ ds.toFinset } := by
  induction ds generalizing s with
  | nil => simp
  | cons d ds ih =>
    have hunion : s.deltas ∪ (d :: ds).toFinset = insert d s.deltas ∪ ds.toFinset := by
      simp
    rw [hunion] at hwf ⊢
    have hone : CandidatesWellFormed (insert d s.deltas) := hwf.mono Finset.subset_union_left
    refine run_cons.mpr ⟨_, by rw [step, if_pos hone], ?_⟩
    exact ih { s with deltas := insert d s.deltas } hwf

theorem run_applyNext (promotedBaseChecksum : C) {s : State W C F} {ds : List (Delta W C F)}
    {final : Cursor C} (hfatal : s.fatal = false) (hmem : ∀ d ∈ ds, d ∈ s.deltas)
    (h : Chained s.followerEpoch s.followerWriter s.cursor ds final) :
    run (step promotedBaseChecksum) s (ds.map .applyNext) =
      some { s with
        followerSeq := final.seq
        chainAnchor := final.anchor
        pageCount := final.pageCount
        applied := s.applied ∪ ds.toFinset } := by
  induction ds generalizing s with
  | nil =>
    obtain rfl : s.cursor = final := h
    simp [State.cursor]
  | cons d ds ih =>
    obtain ⟨⟨hseq, hepoch, hwriter, hprev⟩, hrest⟩ := h
    have haccepts : s.Accepts d :=
      ⟨hfatal, hmem d List.mem_cons_self, hseq, hepoch, hwriter, hprev⟩
    refine run_cons.mpr ⟨s.apply d, by rw [step, if_pos haccepts], ?_⟩
    have hmem' : ∀ e ∈ ds, e ∈ (s.apply d).deltas := by
      intro e he
      exact hmem e (List.mem_cons_of_mem d he)
    have happlied : insert d s.applied ∪ ds.toFinset = s.applied ∪ (d :: ds).toFinset := by
      simp
    have hfatal' : (s.apply d).fatal = false := hfatal
    rw [ih hfatal' hmem' hrest]
    simp only [State.apply, happlied]

/-- A chain that is published can be applied, to its end. -/
theorem run_chain (promotedBaseChecksum : C) {initialBase : Base W C} {ds : List (Delta W C F)}
    {final : Cursor C}
    (h : Chained initialBase.epoch initialBase.writer initialBase.cursor ds final)
    (hwf : CandidatesWellFormed ds.toFinset) :
    run (step promotedBaseChecksum) (init initialBase)
      (ds.map .appendDelta ++ ds.map .applyNext) =
    some { (init initialBase : State W C F) with
      deltas := ds.toFinset
      followerSeq := final.seq
      chainAnchor := final.anchor
      pageCount := final.pageCount
      applied := ds.toFinset } := by
  have hpublish := run_appendDelta promotedBaseChecksum (init initialBase) (by simpa [init] using hwf)
  refine run_append.mpr ⟨_, hpublish, ?_⟩
  have hmem : ∀ d ∈ ds, d ∈ (init initialBase : State W C F).deltas ∪ ds.toFinset := by
    intro d hd
    exact Finset.mem_union_right _ (List.mem_toFinset.mpr hd)
  rw [run_applyNext promotedBaseChecksum rfl hmem h]
  simp [init]

/-! ### Agreement -/

/-- Followers of one base that saw no equivocation: whoever is behind has applied a part of what the other
has, and where they have come equally far they are in one state. -/
theorem followers_agree {initialBase : Base W C} {promotedBaseChecksum : C}
    {es fs : List (Event W C F)} {s t : State W C F}
    (hs : run (step promotedBaseChecksum) (init initialBase) es = some s)
    (ht : run (step promotedBaseChecksum) (init initialBase) fs = some t)
    (hroot : s.root = t.root) (hno : ¬ HasEquivocation (s.deltas ∪ t.deltas))
    (hle : s.followerSeq ≤ t.followerSeq) :
    s.applied ⊆ t.applied ∧
      (s.followerSeq = t.followerSeq → s.applied = t.applied ∧ s.cursor = t.cursor) := by
  obtain ⟨ds, hds⟩ := (inv_run hs).applies
  obtain ⟨ds', hds'⟩ := (inv_run ht).applies
  have hchain := hds.chained
  rw [hroot] at hchain
  have hlen : s.followerSeq = t.root.seq + ds.length := hchain.seq_eq
  have hlen' : t.followerSeq = t.root.seq + ds'.length := hds'.chained.seq_eq
  have hprefix : ds <+: ds' := by
    refine Chained.prefix_of_le hno hchain hds'.chained ?_ ?_ (by omega)
    · intro d hd
      exact Finset.mem_union_left _ (hds.published d hd)
    · intro d hd
      exact Finset.mem_union_right _ (hds'.published d hd)
  refine ⟨?_, fun heq => ?_⟩
  · intro d hd
    rw [hds.applied, List.mem_toFinset] at hd
    rw [hds'.applied, List.mem_toFinset]
    exact hprefix.subset hd
  · obtain rfl : ds = ds' := hprefix.eq_of_length (by omega)
    refine ⟨hds.applied.trans hds'.applied.symm, ?_⟩
    rcases hchain.last with hstart | ⟨d, hd, hcur⟩
    · rcases hds'.chained.last with hstart' | ⟨d, hd, hcur⟩
      · exact hstart.symm.trans hstart'
      · have hlt := (hchain.bounds hd).1
        rw [hstart] at hlt
        exact absurd (hchain.bounds hd).2 (Nat.not_le.mpr hlt)
    · rcases hds'.chained.last with hstart' | ⟨d', hd', hcur'⟩
      · have hlt := (hds'.chained.bounds hd).1
        rw [hstart'] at hlt
        exact absurd (hds'.chained.bounds hd).2 (Nat.not_le.mpr hlt)
      · have hseq : d.cursor.seq = d'.cursor.seq := by
          rw [hcur, hcur']
          exact heq
        obtain rfl := hchain.unique hd hd' hseq
        exact hcur.symm.trans hcur'

open Example in
theorem example_followers_agree : ∃ s t : State String String String,
    run (step "base1") (init base) behind = some s ∧ run (step "base1") (init base) ahead = some t ∧
    s.applied ⊆ t.applied ∧
      (s.followerSeq = t.followerSeq → s.applied = t.applied ∧ s.cursor = t.cursor) := by
  refine ⟨_, _, rfl, rfl, ?_⟩
  exact followers_agree (show run (step "base1") (init base) behind = some _ from rfl)
    (show run (step "base1") (init base) ahead = some _ from rfl) rfl (by decide) (by decide)

end Turbolite.CursorChain
