import Turbolite.Codec
import Turbolite.Lib.Extents

/-!
# Turbolite.SeekableCodec

Seekable page groups there and back (`encoding.rs`), under a group length that need not be the one at
the time of encoding. A full decode caps every frame at the bytes of the whole group as it is now, so a
group that shrank below its first frame is not decoded any more; `roundTrips_iff` says exactly when
the table, single frames and the full decode are right.
-/

namespace Turbolite

open Blocks Extents Results

namespace CodecConfig

section Encode

variable (cfg : CodecConfig) (aad : Bytes) (ps spf : Nat) (pages : List (Option Bytes))

/-- The sealed frames, in order. -/
def sealedFrames : List Bytes :=
  (blocks spf pages).map fun frame => cfg.sealFrame aad (frame.map (padPage ps)).flatten

/-- One turn of the loop of `encode_page_group_seekable`; the length goes into the table as a `u32`. -/
def pushFrame32 (acc : Bytes × List FrameEntry) (frame : Bytes) : Bytes × List FrameEntry :=
  (acc.1 ++ frame, acc.2 ++ [⟨acc.1.length, frame.length % 2 ^ 32⟩])

/-- `encode_page_group_seekable` with the width of the table; see `encodeSeekable_eq`. -/
def encodeSeekable : Bytes × List FrameEntry :=
  (cfg.sealedFrames aad ps spf pages).foldl pushFrame32 ([], [])

/-- The pages as they were handed to the encoder, padded. -/
def padded : List Bytes := pages.map (padPage ps)

variable (n pc : Nat)

/-- The table tiles the blob, every frame alone gives its pages, and a full decode for a group of
`min n pc` pages gives the encoded pages, as many as there are. -/
structure RoundTrips : Prop where
  tiles : Tiles 0 ((cfg.encodeSeekable aad ps spf pages).2.map fun e => (e.offset, e.len))
    (cfg.encodeSeekable aad ps spf pages).1.length
  count : (cfg.encodeSeekable aad ps spf pages).2.length = divCeil pages.length spf
  frame : ∀ i e, (cfg.encodeSeekable aad ps spf pages).2[i]? = some e →
    cfg.decodeSeekableSubchunk aad
        (((cfg.encodeSeekable aad ps spf pages).1.drop e.offset).take e.len) =
      .ok (block spf i (padded ps pages)).flatten
  full : cfg.decodePageGroupSeekableFull cfg.dictionary aad (cfg.encodeSeekable aad ps spf pages).1
      (cfg.encodeSeekable aad ps spf pages).2 ps n pc =
    .ok (min (min n pc) pages.length, ps, ((padded ps pages).take (min n pc)).flatten)

/-- The page size is not zero, the lengths fit the table, a frame fits the absolute ceiling, the group,
unless it is empty now, has at least as many pages as the first frame, and the count of the decoded
pages fits a `u32`, or is large enough without what it loses. -/
structure Fits : Prop where
  pageSize : 0 < ps
  lengths : ∀ frame ∈ cfg.sealedFrames aad ps spf pages, frame.length < 2 ^ 32
  ceiling : min spf pages.length * ps ≤ maxTieredDecompressedBytes
  group : min n pc = 0 ∨ min spf pages.length ≤ min n pc
  count : pages.length < 2 ^ 32 ∨ min n pc ≤ pages.length % 2 ^ 32

end Encode

/-! ### The table -/

/-- The table the loop leaves. -/
def tableFrom : Nat → List Bytes → List FrameEntry
  | _, [] => []
  | off, frame :: frames => ⟨off, frame.length % 2 ^ 32⟩ :: tableFrom (off + frame.length) frames

theorem foldl_pushFrame32 (acc : Bytes × List FrameEntry) (frames : List Bytes) :
    frames.foldl pushFrame32 acc =
      (acc.1 ++ frames.flatten, acc.2 ++ tableFrom acc.1.length frames) := by
  induction frames generalizing acc with
  | nil => simp [tableFrom]
  | cons frame frames ih =>
    rw [List.foldl_cons, ih]
    simp [pushFrame32, tableFrom]

/-- A tiling of the table starts where the table does. -/
theorem start_of_tiles {off start : Nat} {frames : List Bytes}
    (h : Tiles start ((tableFrom off frames).map fun e => (e.offset, e.len))
      (off + frames.flatten.length)) : start = off := by
  cases frames with
  | nil => exact h
  | cons frame frames => exact h.1.symm

theorem tiles_tableFrom_iff (off : Nat) (frames : List Bytes) :
    Tiles off ((tableFrom off frames).map fun e => (e.offset, e.len)) (off + frames.flatten.length) ↔
      ∀ frame ∈ frames, frame.length < 2 ^ 32 := by
  induction frames generalizing off with
  | nil => exact iff_of_true rfl fun _ h => absurd h List.not_mem_nil
  | cons frame frames ih =>
    rw [List.forall_mem_cons, ← ih (off + frame.length), List.flatten_cons, List.length_append,
      ← Nat.add_assoc]
    constructor
    · rintro ⟨-, hrest⟩
      have hstart := start_of_tiles hrest
      have hlt : frame.length < 2 ^ 32 := by
        have := Nat.mod_lt frame.length (Nat.two_pow_pos 32)
        dsimp only at hstart
        omega
      dsimp only at hrest
      rw [Nat.mod_eq_of_lt hlt] at hrest
      exact ⟨hlt, hrest⟩
    · rintro ⟨hlt, hrest⟩
      refine ⟨rfl, ?_⟩
      dsimp only
      rwa [Nat.mod_eq_of_lt hlt]

variable {cfg : CodecConfig} {aad : Bytes} {ps spf n pc : Nat} {pages : List (Option Bytes)}

theorem encodeSeekable_eq_table : cfg.encodeSeekable aad ps spf pages =
    ((cfg.sealedFrames aad ps spf pages).flatten, tableFrom 0 (cfg.sealedFrames aad ps spf pages)) := by
  rw [encodeSeekable, foldl_pushFrame32]
  simp

/-- Where every length fits, nothing is cut off. -/
theorem encodeSeekable_eq (h : ∀ frame ∈ cfg.sealedFrames aad ps spf pages, frame.length < 2 ^ 32) :
    cfg.encodeSeekable aad ps spf pages = cfg.encodePageGroupSeekable aad ps spf pages := by
  have hfold : ∀ frames : List Bytes, (∀ frame ∈ frames, frame.length < 2 ^ 32) →
      ∀ acc, frames.foldl pushFrame32 acc = frames.foldl pushFrame acc := by
    intro frames hframes
    induction frames with
    | nil => exact fun _ => rfl
    | cons frame frames ih =>
      intro acc
      have hlt := hframes frame List.mem_cons_self
      rw [List.foldl_cons, List.foldl_cons, ih fun x hx => hframes x (List.mem_cons_of_mem _ hx)]
      rw [pushFrame32, pushFrame, Nat.mod_eq_of_lt hlt]
  exact hfold _ h _

theorem tiles_iff : Tiles 0 ((cfg.encodeSeekable aad ps spf pages).2.map fun e => (e.offset, e.len))
    (cfg.encodeSeekable aad ps spf pages).1.length ↔
      ∀ frame ∈ cfg.sealedFrames aad ps spf pages, frame.length < 2 ^ 32 := by
  have h := tiles_tableFrom_iff 0 (cfg.sealedFrames aad ps spf pages)
  rw [Nat.zero_add] at h
  rw [encodeSeekable_eq_table]
  exact h

theorem length_padded : (padded ps pages).length = pages.length := List.length_map ..

/-- When the width of the count does not matter for `k` pages of `l`. -/
theorem count_iff (k l : Nat) :
    min k (l % 2 ^ 32) = min k l ↔ l < 2 ^ 32 ∨ k ≤ l % 2 ^ 32 := by
  constructor
  · intro heq
    rcases Nat.lt_or_ge l (2 ^ 32) with hlt | hge
    · exact .inl hlt
    · have hmod := Nat.mod_lt l (Nat.two_pow_pos 32)
      exact .inr (by omega)
  · rintro (hlt | hle)
    · rw [Nat.mod_eq_of_lt hlt]
    · rw [Nat.min_eq_left hle, Nat.min_eq_left (hle.trans (Nat.mod_le _ _))]

/-! ### Frames and the whole group -/

section Decode

variable (hc : cfg.codecs.Lawful) (hspf : 0 < spf)
  (hsize : ∀ data, some data ∈ pages → data.length ≤ ps)
  (hfit : ∀ frame ∈ cfg.sealedFrames aad ps spf pages, frame.length < 2 ^ 32)

include hc hsize hfit

theorem holds_encodeSeekable : cfg.HoldsSeekable aad (cfg.encodeSeekable aad ps spf pages).1
    (cfg.encodeSeekable aad ps spf pages).2 ps spf (padded ps pages) := by
  rw [encodeSeekable_eq hfit]
  exact encodePageGroupSeekable_holds hc aad hsize

theorem length_table :
    (cfg.encodeSeekable aad ps spf pages).2.length = divCeil pages.length spf := by
  rw [(holds_encodeSeekable hc hsize hfit).length, length_padded]

/-- A frame is opened alone, up to the absolute ceiling. -/
theorem decodeSubchunk_of_ceiling (hceil : min spf pages.length * ps ≤ maxTieredDecompressedBytes)
    {i : Nat} {e : FrameEntry} (he : (cfg.encodeSeekable aad ps spf pages).2[i]? = some e) :
    cfg.decodeSeekableSubchunk aad
        (((cfg.encodeSeekable aad ps spf pages).1.drop e.offset).take e.len) =
      .ok (block spf i (padded ps pages)).flatten := by
  have hholds := holds_encodeSeekable hc hsize hfit
  refine (hholds.frame i e he).2.openFrame ?_
  rw [hholds.length_frame, length_padded]
  refine le_trans (Nat.mul_le_mul_right ps ?_) hceil
  omega

include hspf

/-- The first frame is the largest. -/
theorem ceiling_of_decodeSubchunk (hframe : ∀ i e,
    (cfg.encodeSeekable aad ps spf pages).2[i]? = some e → cfg.decodeSeekableSubchunk aad
        (((cfg.encodeSeekable aad ps spf pages).1.drop e.offset).take e.len) =
      .ok (block spf i (padded ps pages)).flatten) :
    min spf pages.length * ps ≤ maxTieredDecompressedBytes := by
  have hholds := holds_encodeSeekable hc hsize hfit
  rcases Nat.eq_zero_or_pos pages.length with hnil | hpos
  · rw [hnil, Nat.min_zero, Nat.zero_mul]
    exact Nat.zero_le _
  · have h0 : 0 < (cfg.encodeSeekable aad ps spf pages).2.length := by
      rw [length_table hc hsize hfit, lt_divCeil_iff hspf, Nat.zero_mul]
      exact hpos
    have he := List.getElem?_eq_getElem h0
    have hlen := ((hholds.frame 0 _ he).2.openFrame_inv (hframe 0 _ he)).2
    rw [hholds.length_frame, length_padded, Nat.zero_mul, Nat.sub_zero] at hlen
    exact hlen

/-- A full decode succeeds exactly when the group is empty or not shorter than the first frame; it has
all the pages then, unless their count is cut off. -/
theorem decodeFull_iff (hps : 0 < ps)
    (hceil : min spf pages.length * ps ≤ maxTieredDecompressedBytes) :
    cfg.decodePageGroupSeekableFull cfg.dictionary aad (cfg.encodeSeekable aad ps spf pages).1
        (cfg.encodeSeekable aad ps spf pages).2 ps n pc =
      .ok (min (min n pc) pages.length, ps, ((padded ps pages).take (min n pc)).flatten) ↔
      (min n pc = 0 ∨ min spf pages.length ≤ min n pc) ∧
        (pages.length < 2 ^ 32 ∨ min n pc ≤ pages.length % 2 ^ 32) := by
  have hholds := holds_encodeSeekable hc hsize hfit
  have hcap : min spf (padded ps pages).length * ps ≤ frameCap ps (min n pc) ↔
      min n pc = 0 ∨ min spf pages.length ≤ min n pc := by
    rw [length_padded]
    rcases Nat.eq_zero_or_pos (min n pc) with hzero | hpos
    · rw [hzero, frameCap, Nat.zero_mul, if_pos rfl]
      exact iff_of_true hceil (.inl rfl)
    · rw [frameCap, if_neg (Nat.mul_pos hpos hps).ne', Nat.mul_le_mul_right_iff hps]
      exact (or_iff_right (Nat.pos_iff_ne_zero.mp hpos)).symm
  rw [← hcap, ← count_iff]
  constructor
  · intro hfull
    have hle : min spf (padded ps pages).length * ps ≤ frameCap ps (min n pc) := by
      by_contra hbig
      obtain ⟨e, he⟩ := hholds.decode_error hspf (Nat.lt_of_not_le hbig)
      rw [hfull] at he
      cases he
    have hgot := hholds.decode_count hspf hps hle
    rw [hfull, length_padded] at hgot
    exact ⟨hle, (congrArg Prod.fst (Except.ok.inj hgot)).symm⟩
  · rintro ⟨hle, hcount⟩
    have hfull := hholds.decode_count hspf hps hle
    have hall : (padded ps pages).take pages.length = padded ps pages :=
      List.take_of_length_le length_padded.le
    rw [length_padded, hcount, ← List.take_take, hall] at hfull
    exact hfull

end Decode

/-- For every group, key, dictionary and frame size, and every length of the group at the time of the
decode: the codec is right exactly when the frames fit. -/
theorem roundTrips_iff (hc : cfg.codecs.Lawful) (hspf : 0 < spf)
    (hsize : ∀ data, some data ∈ pages → data.length ≤ ps) (n pc : Nat) :
    cfg.RoundTrips aad ps spf pages n pc ↔ cfg.Fits aad ps spf pages n pc := by
  constructor
  · intro h
    have hfit := tiles_iff.mp h.tiles
    have hps : 0 < ps := by
      by_contra hzero
      obtain ⟨frames, -, hfull⟩ := bind_eq_ok.mp h.full
      dsimp only at hfull
      rw [if_pos (by omega)] at hfull
      cases hfull
    have hceil := ceiling_of_decodeSubchunk hc hspf hsize hfit h.frame
    obtain ⟨hgroup, hcount⟩ := (decodeFull_iff hc hspf hsize hfit hps hceil).mp h.full
    exact ⟨hps, hfit, hceil, hgroup, hcount⟩
  · intro h
    exact ⟨tiles_iff.mpr h.lengths, length_table hc hsize h.lengths,
      fun i e he => decodeSubchunk_of_ceiling hc hsize h.lengths h.ceiling he,
      (decodeFull_iff hc hspf hsize h.lengths h.pageSize h.ceiling).mpr ⟨h.group, h.count⟩⟩

/-! ### Two pages in one frame -/

namespace Example

/-- Two pages of 512 bytes. -/
def twoPages : List (Option Bytes) := [some (List.replicate 512 1), some (List.replicate 512 2)]

theorem size_twoPages : ∀ data, some data ∈ twoPages → data.length ≤ 512 := by
  intro data hdata
  rcases List.mem_cons.mp hdata with hdata | hdata
  · cases hdata
    exact List.length_replicate.le
  · rw [List.mem_singleton] at hdata
    cases hdata
    exact List.length_replicate.le

end Example

/-- A group of the encoded length round-trips. -/
theorem whole_group_round_trips :
    CodecConfig.plain.RoundTrips [] 512 2 Example.twoPages 2 2 := by
  refine (roundTrips_iff Codecs.plain_lawful (by decide) Example.size_twoPages 2 2).mpr
    ⟨by decide, ?_, by decide, .inr (by decide), .inl (by decide)⟩
  have hlen : (CodecConfig.plain.sealedFrames [] 512 2 Example.twoPages).all
      (fun frame => frame.length < 2 ^ 32) = true := by decide +kernel
  intro frame hframe
  exact of_decide_eq_true (List.all_eq_true.mp hlen frame hframe)

/-- A group that shrank to one page is not decoded: the frame still holds two. -/
theorem shrunk_group_fails : (∀ data, some data ∈ Example.twoPages → data.length ≤ 512) ∧
    ¬ CodecConfig.plain.RoundTrips [] 512 2 Example.twoPages 1 1 := by
  have hfails : (CodecConfig.plain.decodePageGroupSeekableFull none []
      (CodecConfig.plain.encodeSeekable [] 512 2 Example.twoPages).1
      (CodecConfig.plain.encodeSeekable [] 512 2 Example.twoPages).2 512 1 1).toOption = none := by
    decide +kernel
  refine ⟨Example.size_twoPages, fun h => ?_⟩
  have hfull := congrArg Except.toOption h.full
  exact absurd (hfails.symm.trans hfull) (fun heq => by cases heq)

end CodecConfig

end Turbolite
