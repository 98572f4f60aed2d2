import Mathlib.Logic.Function.Basic
import Turbolite.Codec

/-!
# Turbolite.Storage

The backend as the storage helpers (`storage.rs`) see it, and the part of the disk cache the read
paths write to: which pages are present and with which bytes.
-/

namespace Turbolite

open Blocks

/-- Objects by key. The manifest object is kept decoded, next to the others. -/
structure Backend where
  objects : ObjectKey → Option Bytes
  manifest : Option Manifest := none

namespace Backend

/-- `get_page_group`: `none` when the backend has no such object. -/
def getPageGroup (b : Backend) (key : ObjectKey) : Option Bytes := b.objects key

/-- `range_get`: a range that is not there in full is refused. -/
def rangeGet (b : Backend) (key : ObjectKey) (start len : Nat) : IoResult (Option Bytes) :=
  match b.objects key with
  | none => .ok none
  | some data =>
    let bytes := (data.drop start).take len
    if bytes.length = len then .ok (some bytes)
    else .error (.io .invalidData
      s!"storage range_get returned {bytes.length} bytes for requested exact range {start}+{len}")

theorem rangeGet_eq {b : Backend} {key : ObjectKey} {data : Bytes} (hd : b.objects key = some data)
    {start len : Nat} (hle : start + len ≤ data.length) :
    b.rangeGet key start len = .ok (some ((data.drop start).take len)) := by
  unfold rangeGet
  simp only [hd]
  rw [if_pos (by rw [List.length_take, List.length_drop]; omega)]

/-- `put_page_groups`. -/
def putPageGroups (b : Backend) (uploads : List (ObjectKey × Bytes)) : Backend :=
  { b with objects := uploads.foldl (fun o u => Function.update o u.1 (some u.2)) b.objects }

/-- `delete_objects`. -/
def deleteObjects (b : Backend) (keys : List ObjectKey) : Backend :=
  { b with objects := fun k => if k ∈ keys then none else b.objects k }

/-- `put_manifest`: refused when the stored manifest is not older. -/
def putManifest (b : Backend) (m : Manifest) : IoResult Backend :=
  match b.manifest with
  | some remote =>
    if m.version ≤ remote.version then
      .error (.io .other s!"manifest CAS conflict: remote v{remote.version} >= local v{m.version}")
    else .ok { b with manifest := some m }
  | none => .ok { b with manifest := some m }

end Backend

/-! ### Cached pages -/

/-- Bytes of the pages present in the cache. -/
abbrev PageMap := Nat → Option Bytes

namespace PageMap

/-- No page is there. -/
def empty : PageMap := fun _ => none

/-- Install pages one after the other; each is marked present with its new bytes. -/
def install (c : PageMap) (writes : List (Nat × Bytes)) : PageMap :=
  writes.foldl (fun c w => Function.update c w.1 (some w.2)) c

/-- What `write_pages_scattered` writes: every page that `data` covers whole. -/
def scatter (pageSize : Nat) (pageNums : List Nat) (data : Bytes) : List (Nat × Bytes) :=
  (pageNums.take (data.length / pageSize)).zipIdx.map fun pi => (pi.1, block pageSize pi.2 data)

/-- `read_page_if_present` at the end of a read path: an absent page is an error. -/
def readPresent (c : PageMap) (p : Nat) (message : String) : IoResult Bytes :=
  match c p with
  | some data => .ok data
  | none => .error (.io .notFound message)

theorem readPresent_some {c : PageMap} {p : Nat} {d : Bytes} (h : c p = some d) (message : String) :
    c.readPresent p message = .ok d := by
  rw [readPresent, h]

theorem install_of_notMem {c : PageMap} {ws : List (Nat × Bytes)} {p : Nat}
    (h : p ∉ ws.map (·.1)) : c.install ws p = c p := by
  induction ws generalizing c with
  | nil => rfl
  | cons w ws ih =>
    simp only [List.map_cons, List.mem_cons, not_or] at h
    rw [install, List.foldl_cons]
    exact (ih h.2).trans (Function.update_of_ne h.1 _ _)

theorem install_of_mem {c : PageMap} {ws : List (Nat × Bytes)} (hnd : (ws.map (·.1)).Nodup)
    {p : Nat} {data : Bytes} (h : (p, data) ∈ ws) : c.install ws p = some data := by
  induction ws generalizing c with
  | nil => cases h
  | cons w ws ih =>
    obtain ⟨hw, hnd'⟩ := List.nodup_cons.mp hnd
    rw [install, List.foldl_cons]
    rcases List.mem_cons.mp h with rfl | h
    · exact (install_of_notMem hw).trans (Function.update_self _ _ _)
    · exact ih hnd' h

theorem map_fst_scatter (ps : Nat) (ns : List Nat) (data : Bytes) :
    (scatter ps ns data).map (·.1) = ns.take (data.length / ps) := by
  simp [scatter, Function.comp_def, List.zipIdx_map_fst]

theorem mem_scatter {ps : Nat} {ns : List Nat} {data : Bytes} {i p : Nat} (hp : ns[i]? = some p)
    (hi : i < data.length / ps) : (p, block ps i data) ∈ scatter ps ns data := by
  refine List.mem_map.mpr ⟨(p, i), ?_, rfl⟩
  rw [List.mem_zipIdx_iff_getElem?, List.getElem?_take_of_lt hi]
  exact hp

/-- A scattered install stores the page at slot `i` when the buffer reaches that far. -/
theorem install_scatter {c : PageMap} {ps : Nat} {ns : List Nat} (hnd : ns.Nodup) {data : Bytes}
    {i p : Nat} (hp : ns[i]? = some p) :
    c.install (scatter ps ns data) p =
      if i < data.length / ps then some (block ps i data) else c p := by
  split
  · rename_i hi
    refine install_of_mem ?_ (mem_scatter hp hi)
    rw [map_fst_scatter]
    exact hnd.sublist (List.take_sublist _ _)
  · rename_i hi
    refine install_of_notMem ?_
    rw [map_fst_scatter]
    intro hmem
    obtain ⟨j, hj, hjp⟩ := List.mem_take_iff_getElem.mp hmem
    have hij : i = j := by
      have h1 := List.getElem?_eq_some_iff.mp hp
      obtain ⟨hlt, he⟩ := h1
      exact (List.Nodup.getElem_inj_iff hnd).mp (he.trans hjp.symm)
    omega

theorem install_scatter_of_notMem {c : PageMap} {ps : Nat} {ns : List Nat} {data : Bytes} {p : Nat}
    (hp : p ∉ ns) : c.install (scatter ps ns data) p = c p := by
  refine install_of_notMem ?_
  rw [map_fst_scatter]
  exact fun h => hp (List.mem_of_mem_take h)

end PageMap

/-- The disk cache: the pages present, and what `read_page` finds in the cache file whatever the
bitmap says (an absent page is a hole, old bytes, or past the end of the file). -/
structure DiskCache (pageSize : Nat) where
  page : PageMap
  file : PageMap
  coherent : ∀ p d, page p = some d → file p = some d
  sized : ∀ p d, file p = some d → d.length = pageSize

namespace DiskCache

variable {pageSize : Nat}

/-- A cache file that holds the present pages and nothing else. -/
def ofPages (page : PageMap) (sized : ∀ p d, page p = some d → d.length = pageSize) :
    DiskCache pageSize :=
  ⟨page, page, fun _ _ h => h, sized⟩

/-- `read_page`. -/
def readPage (c : DiskCache pageSize) (p : Nat) : IoResult Bytes :=
  match c.file p with
  | some data => .ok data
  | none => .error (.io .unexpectedEof "failed to fill whole buffer")

theorem sized_page (c : DiskCache pageSize) {p : Nat} {d : Bytes} (h : c.page p = some d) :
    d.length = pageSize :=
  c.sized p d (c.coherent p d h)

end DiskCache

end Turbolite
