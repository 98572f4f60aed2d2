import Turbolite.Lib.Runs
import Turbolite.LocalFormat

/-!
# Turbolite.LocalDb

The single-file local database (`MainHandle` in `local/mod.rs`). The database is a byte image in memory;
a sync encodes the whole image into a temporary file and renames it over the target, so the file on disk
is always one complete image. A run is any sequence of opens, writes, truncations, syncs and closes,
with a crash anywhere. `reopens_iff` says what a reopen finds: the image of the last sync, as long as
that image was a whole number of storage pages.
-/

namespace Turbolite.LocalDb

open Blocks LocalFormat Results Runs

/-- `LocalOptions`; the level is part of the codec. -/
structure LocalOptions where
  codec : PageCodec
  pageSize : PageSize

/-- `MainHandle`, without the paths and the lock. -/
structure MainHandle where
  codec : PageCodec
  pageSize : PageSize
  image : Bytes
  dirty : Bool

/-! ### The image -/

/-- `Vec::resize` with zeros. -/
def resize (image : Bytes) (size : Nat) : Bytes :=
  image.take size ++ List.replicate (size - image.length) 0

/-- `image_read`: the bytes at `offset`, or a short read. -/
def imageRead (image : Bytes) (offset len : Nat) : IoResult Bytes :=
  if image.length ≤ offset then .error (.io .unexpectedEof "read past end")
  else
    let bytes := (image.drop offset).take len
    if bytes.length < len then .error (.io .unexpectedEof "short read") else .ok bytes

/-- `image_write`. An end that no vector reaches overflows or panics in `resize`. -/
def imageWrite (image buf : Bytes) (offset : Nat) : IoResult Bytes :=
  let stop := offset + buf.length
  if maxVecLen < stop then .error .panic
  else .ok (splice (if image.length < stop then resize image stop else image) offset buf)

/-- A write is read back. -/
theorem imageRead_imageWrite {image buf out : Bytes} {offset : Nat} (hbuf : buf ≠ [])
    (h : imageWrite image buf offset = .ok out) : imageRead out offset buf.length = .ok buf := by
  have hpos := List.length_pos_iff.mpr hbuf
  simp only [imageWrite] at h
  split at h
  · cases h
  · cases h
    generalize hgrown : (if image.length < offset + buf.length then
      resize image (offset + buf.length) else image) = grown
    have hlen : offset + buf.length ≤ grown.length := by
      rw [← hgrown]
      split
      · simp only [resize, List.length_append, List.length_take, List.length_replicate]
        omega
      · omega
    have hread : ((splice grown offset buf).drop offset).take buf.length = buf := by
      have htake : (grown.take offset).length = offset := by
        rw [List.length_take]
        omega
      rw [splice, List.append_assoc, List.drop_left' htake, List.take_left' rfl]
    simp only [imageRead, hread]
    rw [if_neg (by rw [length_splice hlen]; omega), if_neg (by omega)]

/-! ### The handle -/

namespace MainHandle

/-- `MainHandle::open`, past the lock: a missing or empty file is an empty database. -/
def «open» (o : LocalOptions) (file : Option Bytes) : IoResult MainHandle :=
  match file with
  | none => .ok ⟨o.codec, o.pageSize, [], false⟩
  | some [] => .ok ⟨o.codec, o.pageSize, [], false⟩
  | some bytes => do
    let (image, pageSize) ← decodeFile bytes o.codec
    .ok ⟨o.codec, pageSize, image, false⟩

/-- `write_all_at`. -/
def writeAllAt (h : MainHandle) (buf : Bytes) (offset : Nat) : IoResult MainHandle := do
  let image ← imageWrite h.image buf offset
  .ok { h with image := image, dirty := true }

/-- `set_len`. -/
def setLen (h : MainHandle) (size : Nat) : IoResult MainHandle :=
  if maxVecLen < size then .error .panic
  else .ok { h with image := resize h.image size, dirty := true }

/-- `persist`: what becomes of the call, the handle and the file. `fault` is the error of the first call
that fails before the rename took place; after it nothing can fail. -/
def persist (h : MainHandle) (fault : Option IoError) (file : Option Bytes) :
    IoResult Unit × MainHandle × Option Bytes :=
  if h.dirty then
    match fileBytes h.codec h.pageSize h.image, fault with
    | .error e, _ => (.error e, h, file)
    | .ok _, some e => (.error e, h, file)
    | .ok bytes, none => (.ok (), { h with dirty := false }, some bytes)
  else (.ok (), h, file)

end MainHandle

/-! ### Runs -/

/-- The file at the path, the open handle, and the image of the last successful sync, which no step
reads. -/
structure State where
  file : Option Bytes := none
  handle : Option MainHandle := none
  synced : Bytes := []

/-- The calls of SQLite, and a crash. -/
inductive Event where
  | «open»
  | write (buf : Bytes) (offset : Nat)
  | setLen (size : Nat)
  | sync (fault : Option IoError)
  /-- drop of the handle, which persists what is dirty -/
  | close (fault : Option IoError)
  | crash

/-- A call on the handle that touches the image only. A panic ends the process. -/
def State.edit (s : State) : IoResult MainHandle → State
  | .ok h => { s with handle := some h }
  | .error _ => { s with handle := none }

/-- A persist of the open handle. -/
def State.persist (s : State) (h : MainHandle) (fault : Option IoError) : State :=
  match h.persist fault s.file with
  | (.ok (), h', file) => { file := file, handle := some h', synced := h.image }
  | (.error .panic, _, _) => { s with handle := none }
  | (.error (.io _ _), h', file) => { s with file := file, handle := some h' }

/-- One event; `none` when it cannot happen. -/
def step (o : LocalOptions) (s : State) : Event → Option State
  | .open =>
    match s.handle with
    | none => some { s with handle := (MainHandle.open o s.file).toOption }
    | some _ => none
  | .write buf offset => s.handle.map fun h => s.edit (h.writeAllAt buf offset)
  | .setLen size => s.handle.map fun h => s.edit (h.setLen size)
  | .sync fault => s.handle.map fun h => s.persist h fault
  | .close fault => s.handle.map fun h => { s.persist h fault with handle := none }
  | .crash => some { s with handle := none }

/-- Opening the file again succeeds and gives the image of the last successful sync. -/
def Reopens (o : LocalOptions) (s : State) : Prop :=
  ∃ h, MainHandle.open o s.file = .ok h ∧ h.image = s.synced

/-! ### What every run keeps -/

/-- The file is the encoding of the last synced image. -/
def Holds (o : LocalOptions) (synced : Bytes) : Option Bytes → Prop
  | none => synced = []
  | some bytes => fileBytes o.codec o.pageSize synced = .ok bytes

/-- A handle of these options; a clean one has the synced image. -/
structure Opened (o : LocalOptions) (synced : Bytes) (h : MainHandle) : Prop where
  codec : h.codec = o.codec
  pageSize : h.pageSize = o.pageSize
  clean : h.dirty = false → h.image = synced

/-- The file holds the image last synced, and an open handle started from it. -/
structure Inv (o : LocalOptions) (s : State) : Prop where
  holds : Holds o s.synced s.file
  opened : ∀ h, s.handle = some h → Opened o s.synced h

section

variable {o : LocalOptions} {s : State}

theorem fileBytes_ne_nil {c : PageCodec} {ps : PageSize} {image bytes : Bytes}
    (h : fileBytes c ps image = .ok bytes) : bytes ≠ [] := by
  intro hnil
  have hlen := congrArg List.length (fileBytes_inv h).1
  rw [hnil, List.length_append, List.length_append, Header.length_encode] at hlen
  simp only [headerLen, List.length_nil] at hlen
  omega

/-- A file that holds an image opens to it, or is refused, by the length of the image alone. -/
theorem Holds.open (hc : o.codec.Inverts) {synced : Bytes} {file : Option Bytes}
    (h : Holds o synced file) :
    if o.pageSize.val ∣ synced.length then
      MainHandle.open o file = .ok ⟨o.codec, o.pageSize, synced, false⟩
    else ∃ e, MainHandle.open o file = .error e := by
  cases file with
  | none =>
    have hnil : synced = [] := h
    simp [MainHandle.open, hnil]
  | some bytes =>
    have hfile : fileBytes o.codec o.pageSize synced = .ok bytes := h
    have hread := decodeFile_fileBytes hc hfile
    cases bytes with
    | nil => exact absurd rfl (fileBytes_ne_nil hfile)
    | cons b bs =>
      simp only [MainHandle.open]
      split_ifs with hdvd
      · rw [if_pos hdvd] at hread
        rw [hread, ok_bind]
      · rw [if_neg hdvd] at hread
        obtain ⟨e, he⟩ := hread
        exact ⟨e, by rw [he, error_bind]⟩

theorem Inv.reopens (hc : o.codec.Inverts) (h : Inv o s) :
    Reopens o s ↔ o.pageSize.val ∣ s.synced.length := by
  have hopen := h.holds.open hc
  split_ifs at hopen with hdvd
  · exact ⟨fun _ => hdvd, fun _ => ⟨_, hopen, rfl⟩⟩
  · obtain ⟨e, he⟩ := hopen
    constructor
    · rintro ⟨handle, hok, -⟩
      rw [he] at hok
      cases hok
    · intro hd
      exact absurd hd hdvd

theorem Inv.closed (h : Inv o s) : Inv o { s with handle := none } where
  holds := h.holds
  opened := by simp

/-- An edit leaves the file alone and the handle dirty. -/
theorem Inv.edit (h : Inv o s) {r : IoResult MainHandle}
    (hr : ∀ h', r = .ok h' → h'.codec = o.codec ∧ h'.pageSize = o.pageSize ∧ h'.dirty = true) :
    Inv o (s.edit r) := by
  cases r with
  | error e => exact h.closed
  | ok h' =>
    obtain ⟨hcodec, hps, hdirty⟩ := hr h' rfl
    exact
      { holds := h.holds
        opened := by
          intro g hg
          cases hg
          exact ⟨hcodec, hps, by simp [hdirty]⟩ }

/-- Either nothing was written, or the file now holds the image. -/
theorem Inv.persist (hi : Inv o s) {h : MainHandle} (hh : Opened o s.synced h)
    (fault : Option IoError) : Inv o (s.persist h fault) := by
  unfold State.persist MainHandle.persist
  cases hdirty : h.dirty with
  | false =>
    have himage := hh.clean hdirty
    exact
      { holds := by simpa [himage] using hi.holds
        opened := by
          intro g hg
          cases hg
          exact ⟨hh.codec, hh.pageSize, fun _ => rfl⟩ }
  | true =>
    cases hbytes : fileBytes h.codec h.pageSize h.image with
    | error e =>
      cases e with
      | panic => exact hi.closed
      | io kind message => exact ⟨hi.holds, by rintro g ⟨⟩; exact hh⟩
    | ok bytes =>
      cases fault with
      | some e =>
        cases e with
        | panic => exact hi.closed
        | io kind message => exact ⟨hi.holds, by rintro g ⟨⟩; exact hh⟩
      | none =>
        have hholds : fileBytes o.codec o.pageSize h.image = .ok bytes := by
          rw [← hh.codec, ← hh.pageSize, hbytes]
        exact
          { holds := hholds
            opened := by
              intro g hg
              cases hg
              exact ⟨hh.codec, hh.pageSize, fun _ => rfl⟩ }

theorem writeAllAt_inv {h h' : MainHandle} {buf : Bytes} {offset : Nat}
    (hw : h.writeAllAt buf offset = .ok h') :
    h'.codec = h.codec ∧ h'.pageSize = h.pageSize ∧ h'.dirty = true := by
  unfold MainHandle.writeAllAt at hw
  rw [bind_eq_ok] at hw
  obtain ⟨image, -, hw⟩ := hw
  cases hw
  exact ⟨rfl, rfl, rfl⟩

theorem setLen_inv {h h' : MainHandle} {size : Nat} (hw : h.setLen size = .ok h') :
    h'.codec = h.codec ∧ h'.pageSize = h.pageSize ∧ h'.dirty = true := by
  unfold MainHandle.setLen at hw
  split at hw
  · cases hw
  · cases hw
    exact ⟨rfl, rfl, rfl⟩

theorem step_inv (hc : o.codec.Inverts) {s' : State} {e : Event} (h : Inv o s)
    (hs : step o s e = some s') : Inv o s' := by
  cases e with
  | «open» =>
    cases hh : s.handle with
    | some g => simp [step, hh] at hs
    | none =>
      simp only [step, hh] at hs
      cases hs
      refine ⟨h.holds, ?_⟩
      intro g hg
      have hopen := h.holds.open hc
      split_ifs at hopen
      · simp only [hopen, Except.toOption, Option.some.injEq] at hg
        subst hg
        exact ⟨rfl, rfl, fun _ => rfl⟩
      · obtain ⟨e, he⟩ := hopen
        simp [he, Except.toOption] at hg
  | write buf offset =>
    obtain ⟨g, hg, rfl⟩ := Option.map_eq_some_iff.mp hs
    have hopened := h.opened g hg
    apply h.edit
    intro g' hg'
    obtain ⟨hcodec, hps, hdirty⟩ := writeAllAt_inv hg'
    exact ⟨hcodec.trans hopened.codec, hps.trans hopened.pageSize, hdirty⟩
  | setLen size =>
    obtain ⟨g, hg, rfl⟩ := Option.map_eq_some_iff.mp hs
    have hopened := h.opened g hg
    apply h.edit
    intro g' hg'
    obtain ⟨hcodec, hps, hdirty⟩ := setLen_inv hg'
    exact ⟨hcodec.trans hopened.codec, hps.trans hopened.pageSize, hdirty⟩
  | sync fault =>
    obtain ⟨g, hg, rfl⟩ := Option.map_eq_some_iff.mp hs
    exact h.persist (h.opened g hg) fault
  | close fault =>
    obtain ⟨g, hg, rfl⟩ := Option.map_eq_some_iff.mp hs
    exact (h.persist (h.opened g hg) fault).closed
  | crash =>
    cases hs
    exact h.closed

end

/-- After every run on a new path: the file opens to the image of the last successful sync if and only
if that image is a whole number of storage pages long. -/
theorem reopens_iff {o : LocalOptions} (hc : o.codec.Inverts) {es : List Event} {s : State}
    (hr : run (step o) {} es = some s) : Reopens o s ↔ o.pageSize.val ∣ s.synced.length := by
  have hinit : Inv o {} := ⟨rfl, by simp⟩
  have hinv := run_preserves (fun _ _ _ hi hs => step_inv hc hi hs) hinit hr
  exact hinv.reopens hc

namespace Example

/-- Neither compression nor a key, storage pages of 1024 bytes. -/
def options : LocalOptions where
  codec := ⟨.plain, false, none⟩
  pageSize := ⟨1024, by decide, by decide⟩

theorem inverts : options.codec.Inverts where
  decompress_compress _ := rfl
  decrypt_encrypt _ h := by cases h

/-- One write of `n` bytes, synced, and a crash. -/
def events (n : Nat) : List Event :=
  [.open, .write (List.replicate n 7) 0, .sync none, .crash]

/-- The state after `n` commits. -/
def synced (n : Nat) : State := (run (step options) {} (events n)).getD {}

theorem run_events {n : Nat} (h : (run (step options) {} (events n)).isSome = true) :
    run (step options) {} (events n) = some (synced n) := by
  obtain ⟨s, hs⟩ := Option.isSome_iff_exists.mp h
  rw [synced, hs, Option.getD_some]

end Example

/-- An image of one full storage page survives. -/
theorem full_page_reopens : Reopens Example.options (Example.synced 1024) :=
  (reopens_iff Example.inverts (Example.run_events (by decide +kernel))).mpr (by decide +kernel)

/-- Half a storage page, as a database of one 512-byte page leaves it, is never read again. -/
theorem short_image_is_refused :
    run (step Example.options) {} (Example.events 512) = some (Example.synced 512) ∧
      (Example.synced 512).synced = List.replicate 512 7 ∧
      ¬ Reopens Example.options (Example.synced 512) := by
  refine ⟨Example.run_events (by decide +kernel), by decide +kernel, ?_⟩
  intro ⟨h, hopen, _⟩
  have hrefused : (MainHandle.open Example.options (Example.synced 512).file).toOption.isNone := by
    decide +kernel
  rw [hopen] at hrefused
  cases hrefused

end Turbolite.LocalDb
