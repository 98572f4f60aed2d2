import Mathlib.Data.Finset.Basic
import Turbolite.Lib.Runs
import Turbolite.Staging

/-!
# Turbolite.PendingQueue

The queue of finalized staging logs (`pending_flushes`) as checkpoints append to it and flush
attempts drain it. An attempt takes the whole queue (`flush_dirty_groups`), works without holding
the queue's lock, and on error puts its entries back with `extend`, that is behind everything that
was queued meanwhile. Attempts are serialized by `flush_lock`; writes and checkpoints of any number
of handles interleave freely with one.

`history` and `flushed` record what happened and are read by no step.
-/

namespace Turbolite.PendingQueue

open Runs

/-- The queue, the staging directory and the attempt under way. -/
structure QueueState where
  /-- finalized log files on disk -/
  dir : StagingDir := ∅
  stagingSeq : Nat := 0
  /-- the log each handle is writing -/
  writers : HMap Nat StagingLog := ∅
  pending : List PendingFlush := []
  dirtyGroups : Finset Nat := ∅
  attempt : Option (List PendingFlush × Finset Nat) := none
  /-- every finalized log, in checkpoint order -/
  history : List StagingLog := []
  /-- what each successful flush consumed, and the staged pages it uploaded -/
  flushed : List (List PendingFlush × HMap Nat Bytes) := []

/-- The calls that add to the pending queue or take from it. -/
inductive Event where
  /-- `write_all_at` of a full page by a handle -/
  | write (handle pageSize pageNum : Nat) (data : Bytes)
  /-- local checkpoint of a handle: trailer, groups of its dirty pages -/
  | checkpoint (handle : Nat) (trailer : Manifest) (groups : Finset Nat)
  | beginFlush
  | failFlush
  | finishFlush

/-- The log a handle appends to, opened with the next sequence number on the first write. -/
def openWriter (s : QueueState) (handle pageSize : Nat) : StagingLog × Nat :=
  match s.writers.lookup handle with
  | some log => (log, s.stagingSeq)
  | none => ({ version := s.stagingSeq, pageSize := pageSize }, s.stagingSeq + 1)

/-- One event; `none` when it cannot happen. -/
def step (s : QueueState) : Event → Option QueueState
  | .write h ps p data =>
    let (log, seq) := openWriter s h ps
    some { s with writers := s.writers.insert h (log.append p data), stagingSeq := seq }
  | .checkpoint h trailer groups =>
    match s.writers.lookup h with
    | none => some { s with dirtyGroups := s.dirtyGroups ∪ groups }
    | some log =>
      let log := log.appendManifest trailer
      some { s with
        dir := s.dir.insert log.version log
        writers := s.writers.erase h
        pending := s.pending ++ [⟨log.version, log.pageSize⟩]
        dirtyGroups := s.dirtyGroups ∪ groups
        history := s.history ++ [log] }
  | .beginFlush =>
    if s.attempt = none ∧ ¬ (s.pending = [] ∧ s.dirtyGroups = ∅) then
      some { s with pending := [], dirtyGroups := ∅, attempt := some (s.pending, s.dirtyGroups) }
    else none
  | .failFlush =>
    -- `pending_flushes.extend(flushes)`: the restored entries go to the end
    s.attempt.map fun a =>
      { s with pending := s.pending ++ a.1, dirtyGroups := s.dirtyGroups ∪ a.2, attempt := none }
  | .finishFlush =>
    s.attempt.bind fun a =>
      match mergeStaged s.dir a.1 with
      | .error _ => none
      | .ok staged =>
        some { s with
          dir := a.1.foldl (fun d f => d.erase f.version) s.dir
          attempt := none
          flushed := s.flushed ++ [(a.1, staged)] }

/-- The entries the attempt under way holds. -/
def QueueState.taken (s : QueueState) : List PendingFlush := (s.attempt.map (·.1)).getD []

/-- Every entry, wherever it is: queued, taken, or consumed by a successful flush. -/
def QueueState.entries (s : QueueState) : List PendingFlush :=
  s.pending ++ s.taken ++ s.flushed.flatMap (·.1)

/-- The image of `p` in the most recent checkpoint among the consumed logs that contain it. -/
def newestConsumed (history : List StagingLog) (consumed : List PendingFlush) (p : Nat) :
    Option Bytes :=
  lastImage (history.filter fun log => log.version ∈ consumed.map (·.version)) p

/-- Every successful flush uploaded, for every page, the image of the most recent checkpoint among
the logs it consumed. -/
def NewestWins (s : QueueState) : Prop :=
  ∀ r ∈ s.flushed, ∀ p, r.2.lookup p = newestConsumed s.history r.1 p

/-- Every finalized log is in exactly one place, once. -/
def Conserved (s : QueueState) : Prop :=
  (s.history.map (·.version)).Nodup ∧
    (s.entries.map (·.version)).Perm (s.history.map (·.version))

/-- A failed attempt restores its entries only when no log queued meanwhile shares a page with one
of them. -/
def RestoresDisjoint (s : QueueState) : Event → Prop
  | .failFlush => ∀ a ∈ s.taken, ∀ b ∈ s.pending, ∀ la lb,
      s.dir.lookup a.version = some la → s.dir.lookup b.version = some lb → ¬ la.Shares lb
  | _ => True

/-! ### Order of the history -/

/-- `a` was finalized before `b`. -/
def Before (history : List StagingLog) (a b : StagingLog) : Prop := [a, b].Sublist history

theorem Before.append {H : List StagingLog} {a b : StagingLog} (h : Before H a b)
    (l : List StagingLog) : Before (H ++ l) a b :=
  h.trans (List.sublist_append_left H l)

theorem before_last {H : List StagingLog} {a : StagingLog} (ha : a ∈ H) (b : StagingLog) :
    Before (H ++ [b]) a b :=
  (List.singleton_sublist.mpr ha).append (List.Sublist.refl [b])

theorem before_of_split {pre post : List StagingLog} {a b : StagingLog} (hb : b ∈ post) :
    Before (pre ++ a :: post) a b :=
  ((List.singleton_sublist.mpr hb).cons_cons a).trans (List.sublist_append_right pre (a :: post))

theorem Before.asymm {H : List StagingLog} (hnd : H.Nodup) {a b : StagingLog}
    (hab : Before H a b) : ¬ Before H b a := by
  intro hba
  induction H with
  | nil => simp [Before] at hab
  | cons x H ih =>
    obtain ⟨hx, hnd'⟩ := List.nodup_cons.mp hnd
    rcases List.sublist_cons_iff.mp hab with h1 | ⟨r, hr, h1⟩
    · rcases List.sublist_cons_iff.mp hba with h2 | ⟨r', hr', h2⟩
      · exact ih hnd' h1 h2
      · simp only [List.cons.injEq] at hr'
        obtain ⟨rfl, rfl⟩ := hr'
        exact hx (h1.subset (by simp))
    · simp only [List.cons.injEq] at hr
      obtain ⟨rfl, rfl⟩ := hr
      rcases List.sublist_cons_iff.mp hba with h2 | ⟨r', hr', h2⟩
      · exact hx (h2.subset (by simp))
      · simp only [List.cons.injEq] at hr'
        obtain ⟨rfl, rfl⟩ := hr'
        exact hx (List.singleton_sublist.mp h1)

/-- Logs that share a page are in checkpoint order. -/
def Ordered (history logs : List StagingLog) : Prop :=
  logs.Pairwise fun a b => a.Shares b → Before history a b

/-- Merging logs in an order that agrees with the checkpoint order on every conflict gives every
page its most recent image. -/
theorem lastImage_of_ordered {H L : List StagingLog} (hnd : (H.map (·.version)).Nodup)
    (hsub : ∀ l ∈ L, l ∈ H) (hord : Ordered H L) {vs : List Nat}
    (hvs : ∀ v, v ∈ vs ↔ v ∈ L.map (·.version)) (p : Nat) :
    lastImage L p = lastImage (H.filter fun l => l.version ∈ vs) p := by
  have hH : H.Nodup := hnd.of_map
  have hinj : ∀ a ∈ H, ∀ b ∈ H, a.version = b.version → a = b :=
    fun a ha b hb => List.inj_on_of_nodup_map hnd ha hb
  have hmem : ∀ l, l ∈ H.filter (fun l => l.version ∈ vs) ↔ l ∈ L := by
    intro l
    simp only [List.mem_filter, decide_eq_true_eq, hvs, List.mem_map]
    constructor
    · rintro ⟨hl, x, hx, hxl⟩
      exact hinj x (hsub x hx) l hl hxl ▸ hx
    · exact fun hl => ⟨hsub l hl, l, hl, rfl⟩
  cases hL : lastImage L p with
  | none =>
    symm
    rw [lastImage, List.findSome?_eq_none_iff] at hL ⊢
    intro x hx
    exact hL x (by simpa using (hmem x).mp (List.mem_reverse.mp hx))
  | some b =>
    symm
    obtain ⟨pre, log, post, rfl, hb, hpost⟩ := lastImage_eq_some.mp hL
    obtain ⟨fpre, fpost, hsplit⟩ := List.append_of_mem ((hmem log).mpr (by simp))
    refine lastImage_eq_some.mpr ⟨fpre, log, fpost, hsplit, hb, fun x hx => ?_⟩
    by_contra hne
    have hxf : x ∈ H.filter (fun l => l.version ∈ vs) := by rw [hsplit]; simp [hx]
    have hbefore : Before H log x :=
      (before_of_split hx).trans (hsplit ▸ List.filter_sublist)
    -- `x` comes before `log` in the queue, so the conflict puts it before `log` in the history too
    have hxpre : x ∈ pre := by
      rcases List.mem_append.mp ((hmem x).mp hxf) with h | h
      · exact h
      · rcases List.mem_cons.mp h with rfl | h
        · exact absurd hbefore (Before.asymm hH hbefore)
        · exact absurd (hpost x h) hne
    have hshare : x.Shares log :=
      ⟨p, AList.lookup_isSome.mp (Option.isSome_iff_ne_none.mpr hne),
        AList.lookup_isSome.mp (by rw [hb]; rfl)⟩
    have hxlog : Before H x log :=
      (List.pairwise_append.mp hord).2.2 x hxpre log (by simp) hshare
    exact Before.asymm hH hxlog hbefore

/-! ### The invariant -/

/-- The entries name finalized logs of the history that are still on disk, and conflicting ones are
in checkpoint order. -/
def Queued (dir : StagingDir) (history : List StagingLog) (fs : List PendingFlush) : Prop :=
  ∃ logs : List StagingLog, fs.map (·.version) = logs.map (·.version) ∧
    (∀ l ∈ logs, dir.lookup l.version = some l ∧ l ∈ history) ∧ Ordered history logs

/-- The logs still being written have versions of their own, below `seq` and outside `vs`. -/
structure WritersFresh (writers : HMap Nat StagingLog) (seq : Nat) (vs : List Nat) : Prop where
  fresh : ∀ h log, writers.lookup h = some log → log.version < seq ∧ log.version ∉ vs
  inj : ∀ h h' log log', writers.lookup h = some log → writers.lookup h' = some log' →
    log.version = log'.version → h = h'

/-- Every staging log is pending, being flushed or done, once. -/
structure Inv (s : QueueState) : Prop where
  writers : WritersFresh s.writers s.stagingSeq (s.history.map (·.version))
  historyLt : ∀ l ∈ s.history, l.version < s.stagingSeq
  conserved : Conserved s
  pending : Queued s.dir s.history s.pending
  taken : Queued s.dir s.history s.taken
  newest : NewestWins s

theorem WritersFresh.insert {w : HMap Nat StagingLog} {seq seq' : Nat} {vs : List Nat}
    (hw : WritersFresh w seq vs) {hd : Nat} {log : StagingLog} (hseq : seq ≤ seq')
    (hlog : log.version < seq' ∧ log.version ∉ vs)
    (hne : ∀ x l, x ≠ hd → w.lookup x = some l → l.version ≠ log.version) :
    WritersFresh (w.insert hd log) seq' vs := by
  have hcases : ∀ x l, (w.insert hd log).lookup x = some l →
      (x = hd ∧ l = log) ∨ (x ≠ hd ∧ w.lookup x = some l) := by
    intro x l hx
    by_cases hxd : x = hd
    · subst hxd
      rw [AList.lookup_insert] at hx
      exact .inl ⟨rfl, (Option.some.inj hx).symm⟩
    · rw [AList.lookup_insert_ne hxd] at hx
      exact .inr ⟨hxd, hx⟩
  constructor
  · intro x l hx
    rcases hcases x l hx with ⟨-, rfl⟩ | ⟨-, hx⟩
    · exact hlog
    · exact ⟨(hw.fresh x l hx).1.trans_le hseq, (hw.fresh x l hx).2⟩
  · intro x y l l' hx hy hv
    rcases hcases x l hx with ⟨rfl, rfl⟩ | ⟨hxd, hxw⟩ <;>
      rcases hcases y l' hy with ⟨rfl, rfl⟩ | ⟨hyd, hyw⟩
    · rfl
    · exact absurd hv.symm (hne y l' hyd hyw)
    · exact absurd hv (hne x l hxd hxw)
    · exact hw.inj x y l l' hxw hyw hv

theorem WritersFresh.finalize {w : HMap Nat StagingLog} {seq : Nat} {vs : List Nat}
    (hw : WritersFresh w seq vs) {hd : Nat} {log : StagingLog} (hl : w.lookup hd = some log) :
    WritersFresh (w.erase hd) seq (vs ++ [log.version]) := by
  have hcases : ∀ x l, (w.erase hd).lookup x = some l → x ≠ hd ∧ w.lookup x = some l := by
    intro x l hx
    by_cases hxd : x = hd
    · rw [hxd, AList.lookup_erase] at hx; cases hx
    · exact ⟨hxd, by rwa [AList.lookup_erase_ne hxd] at hx⟩
  constructor
  · intro x l hx
    obtain ⟨hxd, hx⟩ := hcases x l hx
    refine ⟨(hw.fresh x l hx).1, fun hmem => ?_⟩
    rcases List.mem_append.mp hmem with hm | hm
    · exact (hw.fresh x l hx).2 hm
    · exact hxd (hw.inj x hd l log hx hl (List.mem_singleton.mp hm))
  · intro x y l l' hx hy
    exact hw.inj x y l l' (hcases x l hx).2 (hcases y l' hy).2

theorem queued_nil (dir : StagingDir) (H : List StagingLog) : Queued dir H [] :=
  ⟨[], rfl, by simp, .nil⟩

theorem inv_init : Inv {} where
  writers := ⟨by simp, by simp⟩
  historyLt := by simp
  conserved := ⟨by simp, by simp [QueueState.entries, QueueState.taken]⟩
  pending := queued_nil _ _
  taken := queued_nil _ _
  newest := by simp [NewestWins]

/-- A directory that agrees on the named versions and a longer history keep a queue. -/
theorem Queued.mono {dir dir' : StagingDir} {H : List StagingLog} {fs : List PendingFlush}
    (h : Queued dir H fs) (l : List StagingLog)
    (hdir : ∀ v ∈ fs.map (·.version), dir'.lookup v = dir.lookup v) :
    Queued dir' (H ++ l) fs := by
  obtain ⟨logs, hv, hlogs, hord⟩ := h
  refine ⟨logs, hv, fun x hx => ?_, hord.imp fun hab hs => (hab hs).append l⟩
  obtain ⟨hdx, hHx⟩ := hlogs x hx
  have hxv : x.version ∈ fs.map (·.version) := hv ▸ List.mem_map_of_mem hx
  exact ⟨(hdir _ hxv).trans hdx, List.mem_append_left l hHx⟩

/-- A checkpoint queues its log behind the others. -/
theorem Queued.push {dir dir' : StagingDir} {H : List StagingLog} {fs : List PendingFlush}
    (h : Queued dir H fs) {log : StagingLog} (hlog : dir'.lookup log.version = some log)
    (hdir : ∀ v ∈ fs.map (·.version), dir'.lookup v = dir.lookup v) :
    Queued dir' (H ++ [log]) (fs ++ [⟨log.version, log.pageSize⟩]) := by
  obtain ⟨logs, hv, hlogs, hord⟩ := h
  refine ⟨logs ++ [log], by simp [hv], fun l hl => ?_, List.pairwise_append.mpr
    ⟨hord.imp fun hab hs => (hab hs).append [log], by simp, fun x hx y hy _ => ?_⟩⟩
  · rcases List.mem_append.mp hl with hl | hl
    · obtain ⟨hdl, hHl⟩ := hlogs l hl
      exact ⟨(hdir _ (hv ▸ List.mem_map_of_mem hl)).trans hdl, List.mem_append_left _ hHl⟩
    · rw [List.mem_singleton.mp hl]
      exact ⟨hlog, by simp⟩
  · rw [List.mem_singleton.mp hy]
    exact before_last (hlogs x hx).2 log

/-- The logs a queue names are determined by the directory. -/
theorem Queued.resolve {dir : StagingDir} {H : List StagingLog} {fs : List PendingFlush}
    (h : Queued dir H fs) {logs : List StagingLog}
    (hres : fs.map (fun f => dir.lookup f.version) = logs.map some) :
    fs.map (·.version) = logs.map (·.version) ∧ (∀ l ∈ logs, l ∈ H) ∧ Ordered H logs := by
  obtain ⟨logs', hv, hlogs, hord⟩ := h
  have heq : logs = logs' := by
    have h1 : fs.map (fun f => dir.lookup f.version) = logs'.map some := by
      calc fs.map (fun f => dir.lookup f.version)
          = (fs.map (·.version)).map (fun v => dir.lookup v) := by simp
        _ = (logs'.map (·.version)).map (fun v => dir.lookup v) := by rw [hv]
        _ = logs'.map some := by
          rw [List.map_map]
          exact List.map_congr_left fun l hl => (hlogs l hl).1
    exact List.map_injective_iff.mpr (Option.some_injective _) (hres.symm.trans h1)
  subst heq
  exact ⟨hv, fun l hl => (hlogs l hl).2, hord⟩

/-- Two queues whose logs share no page make one queue, in either order. -/
theorem Queued.append {dir : StagingDir} {H : List StagingLog} {fs gs : List PendingFlush}
    (hf : Queued dir H fs) (hg : Queued dir H gs)
    (hdisj : ∀ a ∈ gs, ∀ b ∈ fs, ∀ la lb, dir.lookup a.version = some la →
      dir.lookup b.version = some lb → ¬ la.Shares lb) : Queued dir H (fs ++ gs) := by
  obtain ⟨ls, hvf, hls, hof⟩ := hf
  obtain ⟨ms, hvg, hms, hog⟩ := hg
  refine ⟨ls ++ ms, by simp [hvf, hvg], fun l hl => ?_, ?_⟩
  · rcases List.mem_append.mp hl with h | h
    · exact hls l h
    · exact hms l h
  · refine List.pairwise_append.mpr ⟨hof, hog, fun x hx y hy hxy => ?_⟩
    obtain ⟨b, hb, hbx⟩ := List.mem_map.mp (hvf ▸ List.mem_map_of_mem hx)
    obtain ⟨a, ha, hay⟩ := List.mem_map.mp (hvg ▸ List.mem_map_of_mem hy)
    obtain ⟨p, hp, hq⟩ := hxy
    exact absurd ⟨p, hq, hp⟩
      (hdisj a ha b hb y x (hay ▸ (hms y hy).1) (hbx ▸ (hls x hx).1))

/-! ### The steps -/

section Steps

variable {s s' : QueueState}

theorem Inv.entry_version (h : Inv s) {v : Nat} (hv : v ∈ s.entries.map (·.version)) :
    v ∈ s.history.map (·.version) :=
  h.conserved.2.subset hv

theorem Inv.pending_version (h : Inv s) {v : Nat} (hv : v ∈ s.pending.map (·.version)) :
    v ∈ s.history.map (·.version) :=
  h.entry_version (by simp only [QueueState.entries, List.map_append, List.mem_append]; tauto)

theorem Inv.taken_version (h : Inv s) {v : Nat} (hv : v ∈ s.taken.map (·.version)) :
    v ∈ s.history.map (·.version) :=
  h.entry_version (by simp only [QueueState.entries, List.map_append, List.mem_append]; tauto)

theorem Inv.flushed_version (h : Inv s) {r : List PendingFlush × HMap Nat Bytes}
    (hr : r ∈ s.flushed) {v : Nat} (hv : v ∈ r.1.map (·.version)) :
    v ∈ s.history.map (·.version) := by
  refine h.entry_version ?_
  obtain ⟨f, hf, rfl⟩ := List.mem_map.mp hv
  refine List.mem_map.mpr ⟨f, ?_, rfl⟩
  exact List.mem_append_right _ (List.mem_flatMap.mpr ⟨r, hr, hf⟩)

/-- A log the flush did not consume changes nothing in what it should have uploaded. -/
theorem newestConsumed_append {H : List StagingLog} {log : StagingLog} {fs : List PendingFlush}
    (h : log.version ∉ fs.map (·.version)) (p : Nat) :
    newestConsumed (H ++ [log]) fs p = newestConsumed H fs p := by
  have hf : [log].filter (fun l => decide (l.version ∈ fs.map (·.version))) = [] := by
    simpa using h
  simp only [newestConsumed, List.filter_append, hf, List.append_nil]

theorem inv_write (h : Inv s) {hd ps p : Nat} {data : Bytes}
    (hs : step s (.write hd ps p data) = some s') : Inv s' := by
  simp only [step, Option.some.injEq] at hs
  subst hs
  have hw := h.writers
  unfold openWriter
  cases hl : s.writers.lookup hd with
  | some log =>
    refine { h with writers := hw.insert le_rfl (hw.fresh hd log hl) fun x l hx hxl hv => ?_ }
    exact hx (hw.inj x hd l log hxl hl hv)
  | none =>
    refine { h with writers := hw.insert (Nat.le_succ _) ⟨Nat.lt_succ_self _, ?_⟩ ?_, historyLt := ?_ }
    · intro hmem
      obtain ⟨l, hlH, hlv⟩ := List.mem_map.mp hmem
      exact absurd (h.historyLt l hlH) (by simp only [StagingLog.append_version] at hlv; omega)
    · intro x l _ hxl hv
      exact absurd (hw.fresh x l hxl).1 (by simp only [StagingLog.append_version] at hv; omega)
    · exact fun l hlH => Nat.lt_succ_of_lt (h.historyLt l hlH)

theorem inv_checkpoint (h : Inv s) {hd : Nat} {m : Manifest} {gs : Finset Nat}
    (hs : step s (.checkpoint hd m gs) = some s') : Inv s' := by
  simp only [step] at hs
  cases hl : s.writers.lookup hd with
  | none =>
    simp only [hl, Option.some.injEq] at hs
    subst hs
    exact { h with }
  | some log =>
    simp only [hl, Option.some.injEq] at hs
    subst hs
    obtain ⟨hlt, hnew⟩ := h.writers.fresh hd log hl
    have hkeep : ∀ v ∈ s.history.map (·.version),
        (s.dir.insert log.version (log.appendManifest m)).lookup v = s.dir.lookup v := by
      intro v hv
      exact AList.lookup_insert_ne (fun hvl => hnew (hvl ▸ hv))
    refine ⟨?_, ?_, ⟨?_, ?_⟩, ?_, ?_, ?_⟩
    · simpa using h.writers.finalize hl
    · intro l hlm
      rcases List.mem_append.mp hlm with hm | hm
      · exact h.historyLt l hm
      · rw [List.mem_singleton.mp hm]; exact hlt
    · simp only [List.map_append, List.map_cons, List.map_nil, StagingLog.appendManifest_version]
      exact List.nodup_append.mpr ⟨h.conserved.1, by simp, fun a ha b hb hab => by
        rw [List.mem_singleton.mp hb] at hab; exact hnew (hab ▸ ha)⟩
    · have hp := (h.conserved.2.append_right [log.version])
      simp only [List.map_append, List.map_cons, List.map_nil, StagingLog.appendManifest_version]
      refine List.Perm.trans ?_ hp
      simp only [QueueState.entries, QueueState.taken, List.map_append, List.map_cons,
        List.map_nil, List.append_assoc]
      refine (List.Perm.append_left _ ?_)
      exact List.perm_append_comm.trans (by simp)
    · have hlog : (s.dir.insert log.version (log.appendManifest m)).lookup
          (log.appendManifest m).version = some (log.appendManifest m) := AList.lookup_insert _
      exact h.pending.push hlog fun v hv => hkeep v (h.pending_version hv)
    · exact h.taken.mono _ (fun v hv => hkeep v (h.taken_version hv))
    · intro r hr p
      rw [newestConsumed_append, h.newest r hr p]
      exact fun hmem => hnew (h.flushed_version hr hmem)

theorem inv_beginFlush (h : Inv s) (hs : step s .beginFlush = some s') : Inv s' := by
  simp only [step] at hs
  split at hs
  · rename_i hguard
    have htaken : s.taken = [] := by simp [QueueState.taken, hguard.1]
    cases hs
    refine { h with conserved := ⟨h.conserved.1, ?_⟩, pending := queued_nil _ _, taken := h.pending }
    have hp := h.conserved.2
    simp only [QueueState.entries, htaken, List.append_nil] at hp
    simpa [QueueState.entries, QueueState.taken] using hp
  · cases hs

theorem inv_failFlush (h : Inv s) (hc : RestoresDisjoint s .failFlush)
    (hs : step s .failFlush = some s') : Inv s' := by
  obtain ⟨a, ha, rfl⟩ := Option.map_eq_some_iff.mp hs
  have htaken : s.taken = a.1 := by simp [QueueState.taken, ha]
  refine { h with conserved := ⟨h.conserved.1, ?_⟩, pending := ?_, taken := queued_nil _ _ }
  · have hp := h.conserved.2
    simp only [QueueState.entries, htaken] at hp
    simpa [QueueState.entries, QueueState.taken] using hp
  · exact h.pending.append (htaken ▸ h.taken) (htaken ▸ hc)

theorem inv_finishFlush (h : Inv s) (hs : step s .finishFlush = some s') : Inv s' := by
  obtain ⟨a, ha, hs⟩ := Option.bind_eq_some_iff.mp hs
  have htaken : s.taken = a.1 := by simp [QueueState.taken, ha]
  cases hmerge : mergeStaged s.dir a.1 with
  | error e => simp only [hmerge] at hs; cases hs
  | ok staged =>
    simp only [hmerge, Option.some.injEq] at hs
    subst hs
    have hp := h.conserved.2
    simp only [QueueState.entries, htaken, List.map_append] at hp
    -- a queued entry is not one of the consumed ones, so its log stays
    have hkeep : ∀ v ∈ s.pending.map (·.version),
        (a.1.foldl (fun d f => d.erase f.version) s.dir).lookup v = s.dir.lookup v := by
      intro v hv
      have hnd := (hp.nodup_iff.mpr h.conserved.1).of_append_left
      exact lookup_foldl_erase fun hva => (List.nodup_append.mp hnd).2.2 v hv v hva rfl
    refine { h with conserved := ⟨h.conserved.1, ?_⟩, pending := ?_, taken := queued_nil _ _,
                    newest := ?_ }
    · refine List.Perm.trans ?_ hp
      simp only [QueueState.entries, QueueState.taken, Option.map_none, Option.getD_none,
        List.append_nil, List.flatMap_append, List.flatMap_singleton, List.map_append,
        List.append_assoc]
      exact List.Perm.append_left _ List.perm_append_comm
    · simpa using h.pending.mono [] hkeep
    · intro r hr p
      rcases List.mem_append.mp hr with hr | hr
      · exact h.newest r hr p
      · obtain ⟨logs, hres, hlook⟩ := mergeStaged_spec hmerge
        obtain ⟨hv, hsub, hord⟩ := (htaken ▸ h.taken : Queued s.dir s.history a.1).resolve hres
        rw [List.mem_singleton.mp hr, hlook]
        exact lastImage_of_ordered h.conserved.1 hsub hord (fun v => by rw [hv]) p

/-- Every event that meets the condition keeps the invariant. -/
theorem inv_step (h : Inv s) {e : Event} (hc : RestoresDisjoint s e) (hs : step s e = some s') :
    Inv s' := by
  cases e with
  | write => exact inv_write h hs
  | checkpoint => exact inv_checkpoint h hs
  | beginFlush => exact inv_beginFlush h hs
  | failFlush => exact inv_failFlush h hc hs
  | finishFlush => exact inv_finishFlush h hs

end Steps

/-! ### Newest staged bytes win -/

/-- In every run in which no failed attempt restores a log behind a newer one that shares a page
with it, each successful flush uploads the most recent checkpoint's bytes of every page among the
logs it consumed, and no log is lost or consumed twice. -/
theorem flush_uploads_newest {events : List Event} {s : QueueState}
    (hr : run step {} events = some s) (hm : Meets step RestoresDisjoint {} events) :
    NewestWins s ∧ Conserved s := by
  have h : Inv s := run_invariant (fun _ _ _ hi hc hs => inv_step hi hc hs) inv_init hm hr
  exact ⟨h.newest, h.conserved⟩

/-- A failed attempt on one page is retried together with a checkpoint of another page. -/
def retriedRun : List Event :=
  [.write 0 512 0 (List.replicate 512 1), .checkpoint 0 .empty {0}, .beginFlush,
   .write 0 512 1 (List.replicate 512 2), .checkpoint 0 .empty {0}, .failFlush,
   .beginFlush, .finishFlush]

theorem retried_flush_uploads_newest :
    ∃ s, run step {} retriedRun = some s ∧ s.flushed ≠ [] ∧ NewestWins s ∧ Conserved s := by
  have hm : Meets step RestoresDisjoint {} retriedRun := by
    refine .cons trivial rfl (.cons trivial rfl (.cons trivial rfl (.cons trivial rfl
      (.cons trivial rfl (.cons ?_ rfl (.cons trivial rfl (.cons trivial rfl trivial)))))))
    rintro a ha b hb la lb hla hlb ⟨p, hp, hq⟩
    obtain rfl : a = ⟨0, 512⟩ := List.mem_singleton.mp ha
    obtain rfl : b = ⟨1, 512⟩ := List.mem_singleton.mp hb
    cases hla
    cases hlb
    have hp0 : p = 0 := List.mem_singleton.mp hp
    have hp1 : p = 1 := List.mem_singleton.mp hq
    omega
  exact ⟨_, rfl, List.cons_ne_nil _ _, flush_uploads_newest rfl hm⟩

/-- One page checkpointed twice, the second time while the flush of the first is failing. -/
def overtakenRun : List Event :=
  [.write 0 512 0 (List.replicate 512 1), .checkpoint 0 .empty {0}, .beginFlush,
   .write 0 512 0 (List.replicate 512 2), .checkpoint 0 .empty {0}, .failFlush,
   .beginFlush, .finishFlush]

theorem overtaken_flush_uploads_older :
    ∃ s, run step {} overtakenRun = some s ∧ ¬ (NewestWins s ∧ Conserved s) := by
  refine ⟨_, rfl, fun h => ?_⟩
  have := h.1 _ (List.mem_singleton_self _) 0
  revert this
  decide

end Turbolite.PendingQueue
