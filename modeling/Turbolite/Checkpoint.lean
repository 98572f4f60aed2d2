import Turbolite.ColdRead
import Turbolite.Grouping

/-!
# Turbolite.Checkpoint

The manifest side of a local checkpoint: dirty pages without a group get one, nothing else changes.
The reverse index that is kept up to date entry by entry stays the one `build_page_index` would make,
so the database in the backend stays `Stored` under the new layout. The first write of a handle and
the end of a replay edit the manifest in the same way.
-/

namespace Turbolite

open Blocks ReadPaths

namespace Manifest

/-! ### The index of appended pages -/

theorem slotEntries_append (xs ys : List (List Nat)) :
    slotEntries (xs ++ ys) = slotEntries xs ++ ys.zipIdx.flatMap fun c =>
      c.1.zipIdx.map fun p => (p.1, (⟨xs.length + c.2, p.2⟩ : PageLocation)) := by
  have hshift : ys.zipIdx xs.length = ys.zipIdx.map fun c => (c.1, xs.length + c.2) :=
    List.zipIdx_eq_map_add ..
  rw [slotEntries, slotEntries, List.zipIdx_append, List.flatMap_append, Nat.zero_add, hshift,
    List.flatMap_map]

theorem appendToLast_concat (init : List (List Nat)) (last pages : List Nat) :
    appendToLast (init.concat last) pages = init ++ [last ++ pages] := by
  rw [appendToLast, List.concat_eq_append, List.length_append, List.length_singleton,
    Nat.add_sub_cancel, List.modify_eq_take_cons_drop (by simp)]
  simp

theorem slotEntries_appendToLast (groups : List (List Nat)) (pages : List Nat)
    (h : groups = [] → pages = []) :
    slotEntries (appendToLast groups pages) = slotEntries groups ++ pages.zipIdx.map fun p =>
      (p.1, (⟨groups.length - 1, (groups.getD (groups.length - 1) []).length + p.2⟩ :
        PageLocation)) := by
  rcases List.eq_nil_or_concat groups with rfl | ⟨init, last, rfl⟩
  · rw [h rfl]
    rfl
  · rw [appendToLast_concat, List.concat_eq_append, slotEntries_append, slotEntries_append, List.append_assoc]
    simp [List.zipIdx_append, List.zipIdx_eq_map_add (i := last.length), Function.comp_def]

/-- Appending pages appends their entries. -/
theorem slotEntries_appendPages {groups : List (List Nat)} {room ppg : Nat} {pages : List Nat}
    (h : groups = [] → room = 0) :
    slotEntries (appendPages groups room ppg pages) =
      slotEntries groups ++ appendedEntries groups room ppg pages := by
  have hlen : (appendToLast groups (pages.take room)).length = groups.length := by
    simp [appendToLast]
  rw [appendPages, slotEntries_append, slotEntries_appendToLast, hlen, List.append_assoc]
  · rfl
  · intro hg
    rw [h hg, List.take_zero]

theorem lookup_foldl_congr {es : List (Nat × PageLocation)} {a b : HMap Nat PageLocation}
    (h : ∀ p, a.lookup p = b.lookup p) (p : Nat) :
    (es.foldl (fun idx e => idx.insert e.1 e.2) a).lookup p =
      (es.foldl (fun idx e => idx.insert e.1 e.2) b).lookup p := by
  induction es generalizing a b with
  | nil => exact h p
  | cons e es ih =>
    refine ih fun q => ?_
    by_cases hq : q = e.1
    · rw [hq, AList.lookup_insert, AList.lookup_insert]
    · rw [AList.lookup_insert_ne hq, AList.lookup_insert_ne hq, h]

/-- The index kept up to date is the index built anew. -/
theorem Indexed.assignNewPagesToGroups {m : Manifest} (h : m.Indexed) (unassigned : List Nat)
    (ppg : Nat) : (m.assignNewPagesToGroups unassigned ppg).Indexed := by
  unfold Manifest.assignNewPagesToGroups
  split
  · exact h
  · split
    · rename_i hst
      dsimp only
      split
      · exact ⟨fun _ => h.positional hst, fun hb => by rw [hst] at hb; cases hb⟩
      · exact h
    · rename_i hst
      refine ⟨(fun hp => by rw [hst] at hp; cases hp), fun _ p => ?_⟩
      dsimp only
      rw [pageIndexOf, slotEntries_appendPages, List.foldl_append]
      · exact lookup_foldl_congr (h.bTreeAware hst) p
      · intro hg
        simp [hg, lastGroupRoom]

/-! ### The first write -/

/-- The geometry `write_all_at` publishes when the manifest does not have it yet. -/
def seedGeometry (m : Manifest) (bufLen pagesPerGroup subPagesPerFrame : Nat) : Manifest :=
  { m with
    pageSize := if m.pageSize = 0 then bufLen else m.pageSize
    pagesPerGroup := if m.pagesPerGroup = 0 then pagesPerGroup else m.pagesPerGroup
    subPagesPerFrame := if m.subPagesPerFrame = 0 then subPagesPerFrame else m.subPagesPerFrame }

/-! ### A local checkpoint -/

/-- Dirty pages that have no group. -/
def unassigned (m : Manifest) (dirty : List Nat) : List Nat :=
  dirty.filter fun p => (m.pageLocation p).isNone

/-- What a local checkpoint does to the shared manifest. -/
def localCheckpoint (m : Manifest) (dirty : List Nat) (ppg : Nat) : Manifest :=
  m.assignNewPagesToGroups (m.unassigned dirty) ppg

theorem localCheckpoint_eq (m : Manifest) (dirty : List Nat) (ppg : Nat) : ∃ n gps idx,
    m.localCheckpoint dirty ppg = { m with pageCount := n, groupPages := gps, pageIndex := idx } :=
  m.assignNewPagesToGroups_eq _ _

theorem localCheckpoint_of_assigned {m : Manifest} {dirty : List Nat} (h : m.unassigned dirty = [])
    (ppg : Nat) : m.localCheckpoint dirty ppg = m := by
  rw [localCheckpoint, h, assignNewPagesToGroups, if_pos rfl]

theorem Indexed.nodup_localCheckpoint {m : Manifest} (h : m.Indexed)
    (hnd : ∀ g ∈ m.groupPages, g.Nodup) {dirty : List Nat} (hd : dirty.Nodup) (ppg : Nat) :
    ∀ g ∈ (m.localCheckpoint dirty ppg).groupPages, g.Nodup := by
  refine nodup_assignNewPagesToGroups hnd (hd.filter _) ?_
  intro hst g hg p hp hmem
  have hsome := h.isSome_pageLocation hst hg hp
  obtain ⟨-, hnone⟩ := List.mem_filter.mp hmem
  cases hl : m.pageLocation p with
  | none => rw [hl] at hsome; cases hsome
  | some loc => rw [hl] at hnone; cases hnone

end Manifest

theorem ReadPaths.Stored.localCheckpoint {cfg : CodecConfig} {m : Manifest} {b : Backend}
    {ct : Nat → GroupContent} (h : Stored cfg m b ct) {dirty : List Nat} (hd : dirty.Nodup)
    (ppg : Nat) : Stored cfg (m.localCheckpoint dirty ppg) b ct where
  toStoredObjects := by
    obtain ⟨n, gps, idx, heq⟩ := m.localCheckpoint_eq dirty ppg
    rw [heq]
    exact h.toStoredObjects.of_layout n gps idx
  indexed := h.indexed.assignNewPagesToGroups _ _
  nodup := h.indexed.nodup_localCheckpoint h.nodup hd ppg

/-! ### A replay -/

/-- `ReplayHandle::finalize`: the page count it replays to, page 0 if it was replayed, the newest
sequence number it committed. -/
structure Replay where
  targetPageCount : Option Nat
  maxReplayedPage : Nat
  page0 : Option Bytes
  maxSeq : Option Nat

/-- The page count after the replay. -/
def Replay.newPageCount (r : Replay) (pre : Manifest) : Nat :=
  r.targetPageCount.getD (max pre.pageCount r.maxReplayedPage)

/-- `post_manifest`. -/
def Replay.postManifest (r : Replay) (pre : Manifest) : Manifest :=
  let n := r.newPageCount pre
  let grown := if n ≠ pre.pageCount then pre.setReplayPageCount pre.pageCount n else pre
  { grown with
    dbHeader := match r.page0 with
      | some page0 => if 100 ≤ page0.length then some page0 else grown.dbHeader
      | none => grown.dbHeader
    version := pre.version + 1
    changeCounter := match r.maxSeq with
      | some seq => max grown.changeCounter seq
      | none => grown.changeCounter }

end Turbolite
