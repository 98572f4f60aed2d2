import Mathlib.Data.Set.Function
import Turbolite.Lib.Texts
import Turbolite.Rotation

/-!
# Turbolite.SlotIdentity

Key strings and slot identities (`keys.rs`) as the things that keep objects apart.
`identities_unique`: keys with one string are one key, slots with one identity are one slot, and what
decodes for a slot of an encrypted database decodes for no other slot.

A key is taken apart from the right: behind its last `v` stand the digits of the version, behind its
last `/` the name of the slot, and only the name of an override frame has an `f`.
-/

namespace Turbolite

open Blocks Results Texts

namespace SlotIdentity

/-! ### Taking a key apart -/

/-- What a versioned key is made of. -/
structure KeyParts where
  dir : List Char
  num : Nat
  frame : Option Nat
  version : Nat

/-- What stands between the directory and the version. -/
def slotName (num : Nat) : Option Nat → List Char
  | none => num.repr.toList ++ ['_']
  | some f => num.repr.toList ++ '_' :: 'f' :: (f.repr.toList ++ ['_'])

/-- The characters of a versioned key. -/
def KeyParts.chars (p : KeyParts) : List Char :=
  (p.dir ++ '/' :: slotName p.num p.frame) ++ 'v' :: p.version.repr.toList

/-- The parts of a key; the manifest's is a name of its own. -/
def parts? : ObjectKey → Option KeyParts
  | .manifest => none
  | .pageGroup gid v => some ⟨['p', '/', 'd'], gid, none, v⟩
  | .interiorChunk c v => some ⟨['p', '/', 'i', 't'], c, none, v⟩
  | .indexChunk c v => some ⟨['p', '/', 'i', 'x'], c, none, v⟩
  | .overrideFrame gid f v => some ⟨['p', '/', 'd'], gid, some f, v⟩

theorem toList_text {k : ObjectKey} {p : KeyParts} (h : parts? k = some p) :
    k.text.toList = p.chars := by
  have hversion : "_v".toList = ['_', 'v'] := by decide
  cases k with
  | manifest => cases h
  | pageGroup gid v =>
    cases h
    have hdir : "p/d/".toList = ['p', '/', 'd', '/'] := by decide
    change ("p/d/" ++ gid.repr ++ "_v" ++ v.repr).toList = _
    simp [String.toList_append, hdir, hversion, KeyParts.chars, slotName]
  | interiorChunk c v =>
    cases h
    have hdir : "p/it/".toList = ['p', '/', 'i', 't', '/'] := by decide
    change ("p/it/" ++ c.repr ++ "_v" ++ v.repr).toList = _
    simp [String.toList_append, hdir, hversion, KeyParts.chars, slotName]
  | indexChunk c v =>
    cases h
    have hdir : "p/ix/".toList = ['p', '/', 'i', 'x', '/'] := by decide
    change ("p/ix/" ++ c.repr ++ "_v" ++ v.repr).toList = _
    simp [String.toList_append, hdir, hversion, KeyParts.chars, slotName]
  | overrideFrame gid f v =>
    cases h
    have hdir : "p/d/".toList = ['p', '/', 'd', '/'] := by decide
    have hframe : "_f".toList = ['_', 'f'] := by decide
    change ("p/d/" ++ gid.repr ++ "_f" ++ f.repr ++ "_v" ++ v.repr).toList = _
    simp [String.toList_append, hdir, hframe, hversion, KeyParts.chars, slotName]

/-- A numeral has neither a separator nor a marker. -/
theorem not_mem_repr {c : Char} (hc : c.isDigit = false) (n : Nat) : c ∉ n.repr.toList := by
  intro hmem
  rw [isDigit_of_mem_repr hmem] at hc
  cases hc

theorem slash_not_mem_slotName (num : Nat) (frame : Option Nat) : '/' ∉ slotName num frame := by
  have hdigit : ∀ n : Nat, '/' ∉ n.repr.toList := not_mem_repr (by decide)
  cases frame with
  | none => simpa [slotName] using hdigit num
  | some f =>
    have hboth : '/' ∉ num.repr.toList ∧ '/' ∉ f.repr.toList := ⟨hdigit num, hdigit f⟩
    simpa [slotName] using hboth

theorem slotName_inj {m n : Nat} {f g : Option Nat} (h : slotName m f = slotName n g) :
    m = n ∧ f = g := by
  have hdigit : ∀ n : Nat, 'f' ∉ n.repr.toList := not_mem_repr (by decide)
  have hlast : ∀ n : Nat, 'f' ∉ n.repr.toList ++ ['_'] := fun n => by simpa using hdigit n
  have hname : ∀ {m n : Nat}, m.repr.toList ++ ['_'] = n.repr.toList ++ ['_'] → m = n := fun h =>
    nat_repr_inj (String.toList_inj.mp (List.append_cancel_right h))
  -- an `f` stands in the name of an override frame and in no other
  have hne : ∀ m n f : Nat,
      m.repr.toList ++ ['_'] ≠ n.repr.toList ++ '_' :: 'f' :: (f.repr.toList ++ ['_']) := by
    intro m n f he
    refine hlast m ?_
    rw [he]
    simp
  cases f with
  | none =>
    cases g with
    | none => exact ⟨hname h, rfl⟩
    | some g => exact absurd h (hne m n g)
  | some f =>
    cases g with
    | none => exact absurd h.symm (hne n m f)
    | some g =>
      have hsplit : (m.repr.toList ++ ['_']) ++ 'f' :: (f.repr.toList ++ ['_']) =
          (n.repr.toList ++ ['_']) ++ 'f' :: (g.repr.toList ++ ['_']) := by
        simpa [slotName] using h
      obtain ⟨hnum, hframe⟩ := append_sep_inj (hlast f) (hlast g) hsplit
      exact ⟨hname hnum, congrArg some (hname hframe)⟩

theorem chars_inj {p q : KeyParts} (h : p.chars = q.chars) : p = q := by
  have hdigit : ∀ n : Nat, 'v' ∉ n.repr.toList := not_mem_repr (by decide)
  obtain ⟨hrest, hversion⟩ := append_sep_inj (hdigit _) (hdigit _) h
  obtain ⟨hdir, hname⟩ := append_sep_inj (slash_not_mem_slotName _ _) (slash_not_mem_slotName _ _) hrest
  obtain ⟨hnum, hframe⟩ := slotName_inj hname
  have hv := nat_repr_inj (String.toList_inj.mp hversion)
  cases p
  cases q
  cases hdir
  cases hnum
  cases hframe
  cases hv
  rfl

theorem parts?_inj {k l : ObjectKey} (h : parts? k = parts? l) : k = l := by
  cases k <;> cases l <;> simp_all [parts?]

theorem eq_manifest_of_parts? {k : ObjectKey} (h : parts? k = none) : k = .manifest := parts?_inj h

/-- The manifest's name is no versioned key. -/
theorem chars_ne_manifest (p : KeyParts) : p.chars ≠ ObjectKey.manifest.text.toList := by
  intro h
  have hnone : 'v' ∉ "manifest.msgpack".toList := by decide
  exact hnone (h ▸ List.mem_append_right _ List.mem_cons_self)

theorem text_injective : Function.Injective ObjectKey.text := by
  intro k l h
  have hlist := congrArg String.toList h
  cases hk : parts? k with
  | none =>
    obtain rfl := eq_manifest_of_parts? hk
    cases hl : parts? l with
    | none => exact (eq_manifest_of_parts? hl).symm
    | some q =>
      rw [toList_text hl] at hlist
      exact absurd hlist.symm (chars_ne_manifest q)
  | some p =>
    rw [toList_text hk] at hlist
    cases hl : parts? l with
    | none =>
      obtain rfl := eq_manifest_of_parts? hl
      exact absurd hlist (chars_ne_manifest p)
    | some q =>
      rw [toList_text hl] at hlist
      exact parts?_inj (by rw [hk, hl, chars_inj hlist])

/-! ### Identities -/

/-- The slot's numbers fit the types the program has for them: `u64` and `usize`, and `u32` for a
chunk. -/
def InRange : Slot → Prop
  | .group gid => gid < 2 ^ 64
  | .interior c => c < 2 ^ 32
  | .index c => c < 2 ^ 32
  | .override gid f => gid < 2 ^ 64 ∧ f < 2 ^ 64

theorem leBytes_inj {w m n : Nat} (hm : m < 256 ^ w) (hn : n < 256 ^ w)
    (h : leBytes w m = leBytes w n) : m = n := by
  rw [← ofLeBytes_leBytes hm, h, ofLeBytes_leBytes hn]

theorem aad_injOn : Set.InjOn Slot.aad {s | InRange s} := by
  intro s hs t ht h
  cases s with
  | group gid =>
    cases t with
    | group gid' => exact congrArg Slot.group (leBytes_inj hs ht (List.cons.inj h).2)
    | interior c => cases (List.cons.inj h).1
    | index c => cases (List.cons.inj h).1
    | override gid' f => cases (List.cons.inj h).1
  | interior c =>
    cases t with
    | group gid => cases (List.cons.inj h).1
    | interior c' => exact congrArg Slot.interior (leBytes_inj hs ht (List.cons.inj h).2)
    | index c' => cases (List.cons.inj h).1
    | override gid f => cases (List.cons.inj h).1
  | index c =>
    cases t with
    | group gid => cases (List.cons.inj h).1
    | interior c' => cases (List.cons.inj h).1
    | index c' => exact congrArg Slot.index (leBytes_inj hs ht (List.cons.inj h).2)
    | override gid f => cases (List.cons.inj h).1
  | override gid f =>
    cases t with
    | group gid' => cases (List.cons.inj h).1
    | interior c => cases (List.cons.inj h).1
    | index c => cases (List.cons.inj h).1
    | override gid' f' =>
      obtain ⟨hgid, hframe⟩ := List.append_inj (List.cons.inj h).2 (by simp)
      rw [leBytes_inj hs.1 ht.1 hgid, leBytes_inj hs.2 ht.2 hframe]

/-! ### Decoding -/

variable {cfg : CodecConfig}

/-- Bytes that a decoder takes for the object of a slot, or for a frame of it. -/
inductive Decodes (cfg : CodecConfig) (data : Bytes) : Slot → Prop
  | groupBulk {gid : Nat} {dict : Option Bytes} {out : Nat × Nat × Bytes}
      (h : cfg.decodePageGroupBulk dict (Slot.group gid).aad data = .ok out) : Decodes cfg data (.group gid)
  | groupPages {gid : Nat} {dict : Option Bytes} {out : Nat × Nat × List Bytes}
      (h : cfg.decodePageGroup dict (Slot.group gid).aad data = .ok out) : Decodes cfg data (.group gid)
  | groupFrame {gid : Nat} {raw : Bytes}
      (h : cfg.decodeSeekableSubchunk (Slot.group gid).aad data = .ok raw) : Decodes cfg data (.group gid)
  | overrideFrame {gid f : Nat} {raw : Bytes}
      (h : cfg.decodeSeekableSubchunk (Slot.override gid f).aad data = .ok raw) :
      Decodes cfg data (.override gid f)
  | interior {c : Nat} {pages : List (Nat × Bytes)}
      (h : Rotation.decodeInteriorBundle cfg (Slot.interior c).aad data = .ok pages) :
      Decodes cfg data (.interior c)
  | index {c : Nat} {pages : List (Nat × Bytes)}
      (h : Rotation.decodeInteriorBundle cfg (Slot.index c).aad data = .ok pages) :
      Decodes cfg data (.index c)

/-- Every decoder opens a frame first. -/
theorem Decodes.openFrame {s : Slot} {data : Bytes} (h : Decodes cfg data s) :
    ∃ dict cap raw, cfg.openFrame dict s.aad data cap = .ok raw := by
  cases h with
  | groupBulk h =>
    obtain ⟨raw, hraw, -⟩ := bind_eq_ok.mp h
    exact ⟨_, _, raw, hraw⟩
  | groupPages h =>
    obtain ⟨out, hout, -⟩ := bind_eq_ok.mp h
    obtain ⟨raw, hraw, -⟩ := bind_eq_ok.mp hout
    exact ⟨_, _, raw, hraw⟩
  | groupFrame h => exact ⟨_, _, _, h⟩
  | overrideFrame h => exact ⟨_, _, _, h⟩
  | interior h =>
    obtain ⟨raw, hraw, -⟩ := bind_eq_ok.mp h
    exact ⟨_, _, raw, hraw⟩
  | index h =>
    obtain ⟨raw, hraw, -⟩ := bind_eq_ok.mp h
    exact ⟨_, _, raw, hraw⟩

/-- So does a full decode, of every frame of the table. -/
theorem openFrame_of_full {dict : Option Bytes} {aad data : Bytes} {ft : List FrameEntry}
    {ps ppg total : Nat} {out : Nat × Nat × Bytes}
    (h : cfg.decodePageGroupSeekableFull dict aad data ft ps ppg total = .ok out) {e : FrameEntry}
    (he : e ∈ ft) :
    ∃ cap raw, cfg.openFrame dict aad ((data.drop e.offset).take e.len) cap = .ok raw := by
  obtain ⟨frames, hframes, -⟩ := bind_eq_ok.mp h
  obtain ⟨raw, -, hraw⟩ := ok_of_mapM hframes he
  unfold CodecConfig.openEntry at hraw
  split at hraw
  · cases hraw
  · exact ⟨_, raw, hraw⟩

/-- Under a key, a frame opens under one identity. -/
theorem aad_unique {key : Bytes} (hkey : cfg.encryptionKey = some key) (hbind : cfg.BindsAad)
    {dict dict' : Option Bytes} {aad aad' data raw raw' : Bytes} {cap cap' : Nat}
    (h : cfg.openFrame dict aad data cap = .ok raw)
    (h' : cfg.openFrame dict' aad' data cap' = .ok raw') : aad = aad' := by
  have hdecrypt : ∀ {dict : Option Bytes} {aad raw : Bytes} {cap : Nat},
      cfg.openFrame dict aad data cap = .ok raw → ∃ x, cfg.codecs.decrypt key aad data = some x := by
    intro dict aad raw cap h
    obtain ⟨x, hx, -⟩ := bind_eq_ok.mp h
    simp only [CodecConfig.decryptIfNeeded, hkey] at hx
    cases hd : cfg.codecs.decrypt key aad data with
    | none => simp [hd] at hx
    | some y => exact ⟨y, rfl⟩
  obtain ⟨x, hx⟩ := hdecrypt h
  obtain ⟨y, hy⟩ := hdecrypt h'
  exact hbind key hkey aad aad' data x y hx hy

theorem decodes_unique {key : Bytes} (hkey : cfg.encryptionKey = some key) (hbind : cfg.BindsAad)
    {s t : Slot} (hs : InRange s) (ht : InRange t) {data : Bytes} (h : Decodes cfg data s)
    (h' : Decodes cfg data t) : s = t := by
  obtain ⟨_, _, _, ho⟩ := h.openFrame
  obtain ⟨_, _, _, ho'⟩ := h'.openFrame
  exact aad_injOn hs ht (aad_unique hkey hbind ho ho')

/-- Two groups of which one decodes with a frame that the other's table names too are one group. -/
theorem seekable_unique {key : Bytes} (hkey : cfg.encryptionKey = some key) (hbind : cfg.BindsAad)
    {gid gid' : Nat} (hg : gid < 2 ^ 64) (hg' : gid' < 2 ^ 64) {dict dict' : Option Bytes} {data : Bytes}
    {ft ft' : List FrameEntry} {ps ps' ppg ppg' total total' : Nat} {out out' : Nat × Nat × Bytes}
    (h : cfg.decodePageGroupSeekableFull dict (aadPageGroup gid) data ft ps ppg total = .ok out)
    (h' : cfg.decodePageGroupSeekableFull dict' (aadPageGroup gid') data ft' ps' ppg' total' = .ok out')
    {e : FrameEntry} (he : e ∈ ft) (he' : e ∈ ft') : gid = gid' := by
  obtain ⟨_, _, ho⟩ := openFrame_of_full h he
  obtain ⟨_, _, ho'⟩ := openFrame_of_full h' he'
  have hslot : Slot.group gid = .group gid' := aad_injOn hg hg' (aad_unique hkey hbind ho ho')
  exact Slot.group.inj hslot

/-- One string is one key, one identity is one slot, and under a key no bytes decode for two slots:
neither the objects and frames that a decoder takes whole, nor the frames of a seekable group. -/
theorem identities_unique :
    Function.Injective ObjectKey.text ∧ Set.InjOn Slot.aad {s | InRange s} ∧
    ∀ (cfg : CodecConfig) (key : Bytes), cfg.encryptionKey = some key → cfg.BindsAad →
      (∀ s t data, InRange s → InRange t → Decodes cfg data s → Decodes cfg data t → s = t) ∧
      ∀ (gid gid' : Nat) (dict dict' : Option Bytes) (data : Bytes) (ft ft' : List FrameEntry)
        (ps ps' ppg ppg' total total' : Nat) (out out' : Nat × Nat × Bytes),
        gid < 2 ^ 64 → gid' < 2 ^ 64 →
        cfg.decodePageGroupSeekableFull dict (aadPageGroup gid) data ft ps ppg total = .ok out →
        cfg.decodePageGroupSeekableFull dict' (aadPageGroup gid') data ft' ps' ppg' total' = .ok out' →
        (∃ e, e ∈ ft ∧ e ∈ ft') → gid = gid' := by
  refine ⟨text_injective, aad_injOn, fun cfg key hkey hbind => ⟨?_, ?_⟩⟩
  · intro s t data hs ht h h'
    exact decodes_unique hkey hbind hs ht h h'
  · rintro gid gid' dict dict' data ft ft' ps ps' ppg ppg' total total' out out' hg hg' h h' ⟨e, he, he'⟩
    exact seekable_unique hkey hbind hg hg' h h' he he'

/-- A cipher that puts the identity in front of the bytes, behind its length. -/
def tagged : Codecs where
  compress _ x := x
  decompress _ x := some x
  encrypt _ aad x := UInt8.ofNat aad.length :: (aad ++ x)
  decrypt _ aad data :=
    match data with
    | [] => none
    | n :: rest =>
      if n.toNat = aad.length ∧ rest.take aad.length = aad then some (rest.drop aad.length) else none

/-- A handle with a key. -/
def keyed : CodecConfig := { codecs := tagged, encryptionKey := some [7] }

theorem keyed_bindsAad : keyed.BindsAad := by
  intro key _ aad aad' data x y h h'
  cases data with
  | nil => cases h
  | cons n rest =>
    simp only [keyed, tagged, Option.ite_none_right_eq_some] at h h'
    rw [← h.1.2, ← h'.1.2, ← h.1.1, ← h'.1.1]

/-- What group 1 stores under its key. -/
def storedGroup : Bytes := keyed.sealFrame (aadPageGroup 1) [1, 2, 3, 4]

/-- It decodes for group 1, neither for frame 0 of group 1 nor, frame by frame, for group 2. -/
theorem identities_unique_group_1 :
    Decodes keyed storedGroup (.group 1) ∧ ¬ Decodes keyed storedGroup (.override 1 0) ∧
    ∀ out,
      keyed.decodePageGroupSeekableFull none (aadPageGroup 2) storedGroup [⟨0, 14⟩] 4 1 1 ≠ .ok out := by
  have hframe : keyed.decodeSeekableSubchunk (Slot.group 1).aad storedGroup = .ok [1, 2, 3, 4] := by
    decide
  have hfull : keyed.decodePageGroupSeekableFull none (aadPageGroup 1) storedGroup [⟨0, 14⟩] 4 1 1 =
      .ok (1, 4, [1, 2, 3, 4]) := by decide
  have hdecodes : Decodes keyed storedGroup (.group 1) := .groupFrame hframe
  have hg : InRange (.group 1) := (by decide : 1 < 2 ^ 64)
  have ho : InRange (.override 1 0) := ⟨by decide, by decide⟩
  obtain ⟨hone, hframes⟩ := identities_unique.2.2 keyed [7] rfl keyed_bindsAad
  refine ⟨hdecodes, fun h => ?_, fun out h => ?_⟩
  · cases hone _ _ _ hg ho hdecodes h
  · cases hframes 1 2 _ _ _ _ _ _ _ _ _ _ _ _ _ (by decide) (by decide) hfull h
      ⟨_, List.mem_singleton_self _, List.mem_singleton_self _⟩

end SlotIdentity

end Turbolite
