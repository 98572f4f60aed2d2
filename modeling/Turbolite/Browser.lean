import Turbolite.ColdRead
import Turbolite.Serializers

/-!
# Turbolite.Browser

The browser reader (`packages/browser`): `manifest.ts` and the group fetches of `fetcher.ts`, over the
objects the Rust writers leave. `parseManifest` looks its fields up by name, and the Rust manifest
carries none: it is the array of its fields. `browser_reader_agrees_iff` is the consequence;
`fetched_pages` says what the fetcher makes of a manifest whose fields it does know.
-/

namespace Turbolite.Browser

open Blocks ReadPaths Results

/-! ### Values -/

/-- What `@msgpack/msgpack` decodes to. -/
inductive JsValue where
  | null
  | bool (b : Bool)
  | number (n : Nat)
  | string (s : String)
  | bytes (bs : Bytes)
  | array (xs : List JsValue)
  | object (fields : List (String × JsValue))

namespace JsValue

/-- A property that is no method of the value. Only objects have properties of their own by name. -/
def get (v : JsValue) (name : String) : Option JsValue :=
  match v with
  | .object fields => fields.lookup name
  | _ => none

/-- A value cast to `number`. -/
def asNumber : JsValue → Option Nat
  | .number n => some n
  | _ => none

/-- A value cast to `string`. -/
def asString : JsValue → Option String
  | .string s => some s
  | _ => none

/-- A value cast to an array. -/
def asArray {α : Type} (f : JsValue → Option α) : JsValue → Option (List α)
  | .array xs => xs.mapM f
  | _ => none

/-- A value cast to a record. -/
def asRecord {α : Type} (f : JsValue → Option α) : JsValue → Option (List (String × α))
  | .object fields => fields.mapM fun e => (f e.2).map fun v => (e.1, v)
  | _ => none

/-- A value cast to `FrameEntry`. -/
def asFrameEntry (v : JsValue) : Option FrameEntry := do
  let offset ← (v.get "offset").bind asNumber
  let len ← (v.get "len").bind asNumber
  some ⟨offset, len⟩

end JsValue

/-- What the parser and the reader throw. -/
inductive JsError where
  | typeError
  | decode (message : String)
  /-- A field holds a value its declared type excludes. The casts of the source do not look; what
  would become of such a value is not modelled. -/
  | miscast (field : String)
  | error (message : String)
  deriving DecidableEq

/-! ### The manifest -/

/-- `Manifest` of `types.ts`. -/
structure BrowserManifest where
  version : Nat
  pageCount : Nat
  pageSize : Nat
  pagesPerGroup : Nat
  pageGroupKeys : List String
  interiorChunkKeys : List (String × String)
  indexChunkKeys : List (String × String)
  frameTables : List (List FrameEntry)
  subPagesPerFrame : Nat
  strategy : String
  groupPages : List (List Nat)
  btrees : List (String × JsValue)

/-- `(raw.name as T) ?? otherwise`. -/
def field {α : Type} (raw : JsValue) (name : String) (cast : JsValue → Option α) (otherwise : α) :
    Except JsError α :=
  match raw.get name with
  | none | some .null => .ok otherwise
  | some v =>
    match cast v with
    | some a => .ok a
    | none => .error (.miscast name)

/-- `parseManifest`, over the msgpack decoder. -/
def parseManifest (decode : Bytes → Except String JsValue) (data : Bytes) :
    Except JsError BrowserManifest :=
  match decode data with
  | .error e => .error (.decode e)
  -- a property of null
  | .ok .null => .error .typeError
  | .ok raw => do
    let version ← field raw "version" JsValue.asNumber 0
    let pageCount ← field raw "page_count" JsValue.asNumber 0
    let pageSize ← field raw "page_size" JsValue.asNumber 0
    let pagesPerGroup ← field raw "pages_per_group" JsValue.asNumber 256
    let pageGroupKeys ← field raw "page_group_keys" (JsValue.asArray JsValue.asString) []
    let interiorChunkKeys ← field raw "interior_chunk_keys" (JsValue.asRecord JsValue.asString) []
    let indexChunkKeys ← field raw "index_chunk_keys" (JsValue.asRecord JsValue.asString) []
    let frameTables ← field raw "frame_tables" (JsValue.asArray (JsValue.asArray JsValue.asFrameEntry)) []
    let subPagesPerFrame ← field raw "sub_pages_per_frame" JsValue.asNumber 0
    let strategy ← field raw "strategy" JsValue.asString "Positional"
    let groupPages ← field raw "group_pages" (JsValue.asArray (JsValue.asArray JsValue.asNumber)) []
    let btrees ← field raw "btrees" (JsValue.asRecord some) []
    .ok
      { version, pageCount, pageSize, pagesPerGroup, pageGroupKeys, interiorChunkKeys, indexChunkKeys,
        frameTables, subPagesPerFrame, groupPages, btrees
        strategy :=
          if groupPages ≠ [] ∧ strategy = "Positional" then "BTreeAware" else strategy }

namespace BrowserManifest

variable (m : BrowserManifest)

/-- `buildPageIndex`: a page listed twice keeps its last slot. -/
def buildPageIndex : HMap Nat PageLocation :=
  if m.strategy = "Positional" then ∅ else Manifest.pageIndexOf m.groupPages

/-- `pageLocation`. -/
def pageLocation (pageIndex : HMap Nat PageLocation) (pageNum : Nat) : Option PageLocation :=
  if m.strategy = "BTreeAware" then pageIndex.lookup pageNum
  else if m.pagesPerGroup = 0 ∨ m.pageCount ≤ pageNum then none
  else some ⟨pageNum / m.pagesPerGroup, pageNum % m.pagesPerGroup⟩

/-- `getGroupPageNums`. -/
def getGroupPageNums (groupId : Nat) : List Nat :=
  if m.strategy = "BTreeAware" then m.groupPages.getD groupId []
  else
    let start := groupId * m.pagesPerGroup
    List.range' start (min (start + m.pagesPerGroup) m.pageCount - start)

end BrowserManifest

/-! ### Fetches -/

/-- What the fetcher meets: the objects of the prefix, and `fzstd`. -/
structure Remote where
  object : String → Option Bytes
  decompress : Bytes → Option Bytes

namespace Remote

variable (r : Remote)

/-- The object at a URL. -/
def get (s3Key : String) : Except JsError Bytes :=
  match r.object s3Key with
  | some data => .ok data
  | none => .error (.error "Failed to fetch: 404 Not Found")

/-- `decompress` of `fzstd`. -/
def inflate (data : Bytes) : Except JsError Bytes :=
  match r.decompress data with
  | some raw => .ok raw
  | none => .error (.error "invalid zstd data")

/-- `fetchFrame`. A range that starts past the end is refused; one that ends past it is cut off; an
empty one is no range, and the whole object is sent. -/
def fetchFrame (s3Key : String) (frame : FrameEntry) : Except JsError Bytes := do
  let data ← r.get s3Key
  if frame.len = 0 then r.inflate data
  else if data.length ≤ frame.offset then
    .error (.error "Failed to fetch frame: 416 Range Not Satisfiable")
  else r.inflate ((data.drop frame.offset).take frame.len)

/-- `fetchGroupFull`. -/
def fetchGroupFull (s3Key : String) : Except JsError (Nat × Bytes) := do
  let data ← r.get s3Key
  let raw ← r.inflate data
  if raw.length < 8 then .error (.error "Page group too short for header")
  else .ok (ofLeBytes (raw.take 4), raw.drop 8)

end Remote

/-- The pages of a fetched unit: `subarray` cuts off what is not there. -/
def unitPages (pageSize : Nat) (pageNums : List Nat) (raw : Bytes) : HMap Nat Bytes :=
  Manifest.collectPairs (pageNums.zipIdx.map fun e => (e.1, block pageSize e.2 raw))

/-- `fetchPagesForGroup`. -/
def fetchPagesForGroup (r : Remote) (m : BrowserManifest) (groupId targetIndex : Nat) :
    Except JsError (HMap Nat Bytes) :=
  let key := m.pageGroupKeys.getD groupId ""
  if key = "" then .error (.error s!"No S3 key for group {groupId}")
  else
    let groupPageNums := m.getGroupPageNums groupId
    let frameTable := m.frameTables.getD groupId []
    if frameTable ≠ [] ∧ 0 < m.subPagesPerFrame then
      let spf := m.subPagesPerFrame
      let frameIdx := targetIndex / spf
      match frameTable[frameIdx]? with
      | none => .error (.error s!"Frame index {frameIdx} out of range for group {groupId}")
      | some frame => do
        let raw ← r.fetchFrame key frame
        .ok (unitPages m.pageSize (block spf frameIdx groupPageNums) raw)
    else do
      let (pageCount, data) ← r.fetchGroupFull key
      .ok (unitPages m.pageSize (groupPageNums.take pageCount) data)

/-- The page a read is given when nothing is cached (`getPageAsync` past its caches). -/
def deliver (r : Remote) (m : BrowserManifest) (pageNum : Nat) : Except JsError Bytes :=
  match m.pageLocation m.buildPageIndex pageNum with
  | none => .error (.error s!"Page {pageNum} not found in manifest")
  | some loc => do
    let pages ← fetchPagesForGroup r m loc.groupId loc.index
    match pages.lookup pageNum with
    | some page => .ok page
    | none => .error (.error s!"Page {pageNum} not in fetched group {loc.groupId}")

/-! ### Agreement -/

/-- The value of a B-tree entry. -/
def btreeValue (e : BTreeManifestEntry) : JsValue :=
  .object [("name", .string e.name), ("obj_type", .string e.objType),
    ("group_ids", .array (e.groupIds.map .number)), ("pages", .array (e.pages.map .number))]

/-- The fields the browser reads have the values of the Rust manifest. -/
structure SameFields (b : BrowserManifest) (m : Manifest) : Prop where
  version : b.version = m.version
  pageCount : b.pageCount = m.pageCount
  pageSize : b.pageSize = m.pageSize
  pagesPerGroup : b.pagesPerGroup = m.pagesPerGroup
  pageGroupKeys : b.pageGroupKeys = m.pageGroupKeys.map keyText
  interiorChunkKeys : ∀ name text, (name, text) ∈ b.interiorChunkKeys ↔
    ∃ c k, m.interiorChunkKeys.lookup c = some k ∧ name = toString c ∧ text = k.text
  indexChunkKeys : ∀ name text, (name, text) ∈ b.indexChunkKeys ↔
    ∃ c k, m.indexChunkKeys.lookup c = some k ∧ name = toString c ∧ text = k.text
  frameTables : b.frameTables = m.frameTables
  subPagesPerFrame : b.subPagesPerFrame = m.subPagesPerFrame
  strategy : b.strategy = m.strategy.text
  groupPages : b.groupPages = m.groupPages
  btrees : ∀ name v, (name, v) ∈ b.btrees ↔
    ∃ root e, m.btrees.lookup root = some e ∧ name = toString root ∧ v = btreeValue e

/-- The browser reads a database as Rust does: the manifest it parses has the same fields, and every
page below the end that Rust reads is delivered with the same bytes. -/
structure ReaderAgrees (decode : Bytes → Except String JsValue) (r : Remote) (cfg : CodecConfig)
    (m : Manifest) (data : Bytes) (backend : Backend) : Prop where
  parsed : ∃ b, parseManifest decode data = .ok b ∧ SameFields b m
  pages : ∀ b, parseManifest decode data = .ok b → ∀ p, p < m.pageCount →
    ∀ v, coldRead cfg m backend p = .ok v → deliver r b p = .ok v

/-- The manifest says nothing but what the browser takes for granted. -/
structure Unspecified (m : Manifest) : Prop where
  version : m.version = 0
  pageCount : m.pageCount = 0
  pageSize : m.pageSize = 0
  pagesPerGroup : m.pagesPerGroup = 256
  pageGroupKeys : m.pageGroupKeys = []
  interiorChunkKeys : ∀ c, m.interiorChunkKeys.lookup c = none
  indexChunkKeys : ∀ c, m.indexChunkKeys.lookup c = none
  frameTables : m.frameTables = []
  subPagesPerFrame : m.subPagesPerFrame = 0
  strategy : m.strategy = .positional
  groupPages : m.groupPages = []
  btrees : ∀ root, m.btrees.lookup root = none

/-- What is parsed when no field is found. -/
def absent : BrowserManifest where
  version := 0
  pageCount := 0
  pageSize := 0
  pagesPerGroup := 256
  pageGroupKeys := []
  interiorChunkKeys := []
  indexChunkKeys := []
  frameTables := []
  subPagesPerFrame := 0
  strategy := "Positional"
  groupPages := []
  btrees := []

/-- No field is found in an array. -/
theorem parseManifest_array {decode : Bytes → Except String JsValue} {data : Bytes}
    {xs : List JsValue} (h : decode data = .ok (.array xs)) :
    parseManifest decode data = .ok absent := by
  rw [parseManifest, h]
  rfl

/-- A record that is empty stands for an empty map. -/
theorem empty_record_iff {α β : Type} {h : HMap Nat α} {f : α → β} :
    (∀ name v, (name, v) ∈ ([] : List (String × β)) ↔
      ∃ c a, h.lookup c = some a ∧ name = toString c ∧ v = f a) ↔ ∀ c, h.lookup c = none := by
  constructor
  · intro hiff c
    cases hc : h.lookup c with
    | none => rfl
    | some a =>
      have hmem := (hiff (toString c) (f a)).mpr ⟨c, a, hc, rfl, rfl⟩
      cases hmem
  · intro hnone name v
    constructor
    · intro hmem
      cases hmem
    · intro ⟨c, a, hc, _⟩
      rw [hnone c] at hc
      cases hc

theorem strategy_text_inj {s t : GroupingStrategy} (h : s.text = t.text) : s = t := by
  revert h
  cases s <;> cases t <;> decide

theorem sameFields_absent_iff {m : Manifest} : SameFields absent m ↔ Unspecified m := by
  constructor
  · intro h
    exact ⟨h.version.symm, h.pageCount.symm, h.pageSize.symm, h.pagesPerGroup.symm,
      List.map_eq_nil_iff.mp h.pageGroupKeys.symm, empty_record_iff.mp h.interiorChunkKeys,
      empty_record_iff.mp h.indexChunkKeys, h.frameTables.symm, h.subPagesPerFrame.symm,
      strategy_text_inj (t := .positional) h.strategy.symm, h.groupPages.symm,
      empty_record_iff.mp h.btrees⟩
  · intro h
    refine ⟨h.version.symm, h.pageCount.symm, h.pageSize.symm, h.pagesPerGroup.symm, ?_,
      empty_record_iff.mpr h.interiorChunkKeys, empty_record_iff.mpr h.indexChunkKeys,
      h.frameTables.symm, h.subPagesPerFrame.symm, ?_, h.groupPages.symm,
      empty_record_iff.mpr h.btrees⟩
    · rw [h.pageGroupKeys]
      rfl
    · rw [h.strategy]
      rfl

/-- The manifest as Rust writes it decodes to an array, whatever it says; so the browser agrees with
Rust exactly when the manifest says nothing. -/
theorem browser_reader_agrees_iff {decode : Bytes → Except String JsValue} {S : Serde}
    {m : Manifest} (hdecode : ∃ xs, decode (S.toVec m) = .ok (.array xs)) (r : Remote)
    (cfg : CodecConfig) (backend : Backend) :
    ReaderAgrees decode r cfg m (S.toVec m) backend ↔ Unspecified m := by
  obtain ⟨xs, hxs⟩ := hdecode
  have hparse := parseManifest_array hxs
  constructor
  · intro h
    obtain ⟨b, hb, hsame⟩ := h.parsed
    obtain rfl : absent = b := Except.ok.inj (hparse.symm.trans hb)
    exact sameFields_absent_iff.mp hsame
  · intro h
    refine ⟨⟨absent, hparse, sameFields_absent_iff.mpr h⟩, fun b hb p hp => ?_⟩
    rw [h.pageCount] at hp
    exact absurd hp (Nat.not_lt_zero p)

namespace Example

/-- What the array of a manifest's fields decodes to. -/
def manifestValue (m : Manifest) : JsValue :=
  let frame (e : FrameEntry) : JsValue := .array [.number e.offset, .number e.len]
  let record {α : Type} (value : α → JsValue) (h : HMap Nat α) : JsValue :=
    .object (h.entries.map fun e => (toString e.1, value e.2))
  .array
    [ .number m.version, .number m.changeCounter, .number m.pageCount, .number m.pageSize,
      .number m.pagesPerGroup, .array (m.pageGroupKeys.map fun k => .string (keyText k)),
      record (fun k => .string k.text) m.interiorChunkKeys,
      record (fun k => .string k.text) m.indexChunkKeys,
      .array (m.frameTables.map fun ft => .array (ft.map frame)), .number m.subPagesPerFrame,
      .array (m.subframeOverrides.map
        (record fun o => .array [.string o.key.text, frame o.entry])),
      .string m.strategy.text, .array (m.groupPages.map fun g => .array (g.map .number)),
      record (fun e => .array [.string e.name, .string e.objType, .array (e.groupIds.map .number),
        .array (e.pages.map .number)]) m.btrees,
      match m.dbHeader with
      | none => .null
      | some page0 => .array (page0.map fun x => .number x.toNat),
      .number m.discontinuityStamp,
      .array [.number m.cursor.lastAppliedSeq, .bytes m.cursor.baseObjectChecksum,
        .number m.cursor.epoch],
      .string m.writerId ]

/-- A decoder that knows the bytes of one manifest. -/
def decode (m : Manifest) (data : Bytes) : Except String JsValue :=
  if data = (Serde.on m).toVec m then .ok (manifestValue m) else .error "invalid msgpack"

theorem decodes (m : Manifest) : ∃ xs, decode m ((Serde.on m).toVec m) = .ok (.array xs) := by
  rw [decode, if_pos rfl]
  exact ⟨_, rfl⟩

/-- The URLs of the example database. -/
def remote : Remote where
  object s3Key :=
    if s3Key = "p/d/0_v1" then (ReadPaths.Example.backend 3).objects (.pageGroup 0 1) else none
  decompress := some

/-- A manifest of nothing, with the browser's group size. -/
def nothing : Manifest := { pagesPerGroup := 256 }

end Example

open Turbolite.Browser.Example

theorem example_reader_agrees :
    ReaderAgrees (decode nothing) remote .plain nothing ((Serde.on nothing).toVec nothing)
      (ReadPaths.Example.backend 3) := by
  refine (browser_reader_agrees_iff (decodes nothing) remote .plain _).mpr ?_
  exact ⟨rfl, rfl, rfl, rfl, rfl, fun _ => rfl, fun _ => rfl, rfl, rfl, rfl, rfl, fun _ => rfl⟩

/-- A database of two pages: Rust reads them, the browser finds none. -/
theorem browser_reader_disagrees :
    parseManifest (decode ReadPaths.Example.manifest)
        ((Serde.on ReadPaths.Example.manifest).toVec ReadPaths.Example.manifest) = .ok absent ∧
    coldRead .plain ReadPaths.Example.manifest (ReadPaths.Example.backend 3) 0 =
      .ok (ReadPaths.Example.page 1) ∧
    deliver remote absent 0 = .error (.error "Page 0 not found in manifest") ∧
    ¬ ReaderAgrees (decode ReadPaths.Example.manifest) remote .plain ReadPaths.Example.manifest
      ((Serde.on ReadPaths.Example.manifest).toVec ReadPaths.Example.manifest)
      (ReadPaths.Example.backend 3) := by
  obtain ⟨xs, hxs⟩ := decodes ReadPaths.Example.manifest
  have hparse := parseManifest_array hxs
  refine ⟨hparse, by decide +kernel, by decide +kernel, fun h => ?_⟩
  obtain ⟨b, hb, hsame⟩ := h.parsed
  obtain rfl : absent = b := Except.ok.inj (hparse.symm.trans hb)
  exact absurd hsame.pageCount (by decide)

/-! ### What the fetcher delivers -/

/-- The URLs serve the backend's objects, which are neither encrypted nor compressed with a
dictionary. -/
structure Serves (r : Remote) (cfg : CodecConfig) (backend : Backend) : Prop where
  object : ∀ k : ObjectKey, r.object k.text = backend.objects k
  decompress : ∀ x, r.decompress x = cfg.codecs.decompress none x
  dictionary : cfg.dictionary = none
  encryptionKey : cfg.encryptionKey = none

section

variable {r : Remote} {cfg : CodecConfig} {backend : Backend} {b : BrowserManifest} {m : Manifest}

theorem Serves.inflate (h : Serves r cfg backend) {aad data raw : Bytes}
    (ho : cfg.Opens aad data raw) : r.inflate data = .ok raw := by
  obtain ⟨plain, hplain, hraw⟩ := ho
  simp only [CodecConfig.decryptIfNeeded, h.encryptionKey] at hplain
  obtain rfl : data = plain := Except.ok.inj hplain
  rw [h.dictionary] at hraw
  simp only [Remote.inflate, h.decompress, hraw]

theorem text_ne_empty (k : ObjectKey) : k.text ≠ "" := by
  intro h
  have hlen := congrArg (fun s => s.toList.length) h
  cases k <;> simp [ObjectKey.text] at hlen

/-- The same fields give the same locations and the same pages of a group. -/
theorem SameFields.pageLocation (h : SameFields b m) (hindexed : m.Indexed) (p : Nat) :
    b.pageLocation b.buildPageIndex p = m.pageLocation p := by
  unfold BrowserManifest.pageLocation BrowserManifest.buildPageIndex Manifest.pageLocation
  rw [h.strategy, h.pagesPerGroup, h.pageCount, h.groupPages]
  cases hst : m.strategy with
  | positional => simp [GroupingStrategy.text]
  | bTreeAware =>
    rw [if_pos (show GroupingStrategy.bTreeAware.text = "BTreeAware" from rfl),
      if_neg (show GroupingStrategy.bTreeAware.text ≠ "Positional" by decide)]
    exact (hindexed.bTreeAware hst p).symm

theorem SameFields.getGroupPageNums (h : SameFields b m) (gid : Nat) :
    b.getGroupPageNums gid = m.groupPageNums gid := by
  unfold BrowserManifest.getGroupPageNums Manifest.groupPageNums
  rw [h.strategy, h.pagesPerGroup, h.pageCount, h.groupPages]
  cases m.strategy with
  | positional => simp [GroupingStrategy.text]
  | bTreeAware => simp [GroupingStrategy.text]

theorem SameFields.key (h : SameFields b m) (gid : Nat) :
    b.pageGroupKeys.getD gid "" = keyText (m.groupKey gid) := by
  rw [h.pageGroupKeys, Manifest.groupKey, List.getD_eq_getElem?_getD, List.getD_eq_getElem?_getD,
    List.getElem?_map]
  cases m.pageGroupKeys[gid]? <;> rfl

/-- Slot `i` of a unit is the `i`-th page of its bytes. -/
theorem lookup_unitPages {pageSize : Nat} {pageNums : List Nat} {raw : Bytes} (hnd : pageNums.Nodup)
    {p i : Nat} (hp : pageNums[i]? = some p) :
    (unitPages pageSize pageNums raw).lookup p = some (block pageSize i raw) := by
  have hfst : (pageNums.zipIdx.map fun e => (e.1, block pageSize e.2 raw)).map (·.1) = pageNums := by
    rw [List.map_map]
    exact List.zipIdx_map_fst 0 pageNums
  refine (Manifest.lookup_collectPairs (by rw [hfst]; exact hnd)).mpr ?_
  exact List.mem_map.mpr ⟨(p, i), List.mem_zipIdx_iff_getElem?.mpr hp, rfl⟩

/-- A frame of a seekable group is fetched. -/
theorem Serves.fetchFrame (h : Serves r cfg backend) (hc : cfg.codecs.Lawful) {key : ObjectKey}
    {data aad raw : Bytes} {e : FrameEntry} (hdata : backend.objects key = some data)
    (hfits : e.offset + e.len ≤ data.length)
    (ho : cfg.Opens aad ((data.drop e.offset).take e.len) raw) (hraw : raw ≠ []) :
    r.fetchFrame key.text e = .ok raw := by
  have hlen : e.len ≠ 0 := by
    intro hzero
    obtain ⟨plain, hplain, hdec⟩ := ho
    simp only [hzero, List.take_zero, CodecConfig.decryptIfNeeded, h.encryptionKey] at hplain
    obtain rfl : [] = plain := Except.ok.inj hplain
    exact hraw (hc.decompress_nil _ _ hdec)
  have hget : r.get key.text = .ok data := by simp only [Remote.get, h.object, hdata]
  rw [Remote.fetchFrame, hget, ok_bind, if_neg hlen, if_neg (by omega)]
  exact h.inflate ho

/-- The fetch of a group whose manifest fields are those of Rust. -/
theorem SameFields.fetchPagesForGroup (h : SameFields b m) {gid : Nat} {key : ObjectKey}
    (hkey : m.groupKey gid = some key) (i : Nat) :
    fetchPagesForGroup r b gid i =
      if m.hasFrames gid then
        match (m.frameTable gid)[i / m.subPagesPerFrame]? with
        | none => .error (.error
            s!"Frame index {i / m.subPagesPerFrame} out of range for group {gid}")
        | some frame => do
          let raw ← r.fetchFrame key.text frame
          .ok (unitPages m.pageSize
            (block m.subPagesPerFrame (i / m.subPagesPerFrame) (m.groupPageNums gid)) raw)
      else (do
        let (pageCount, data) ← r.fetchGroupFull key.text
        .ok (unitPages m.pageSize ((m.groupPageNums gid).take pageCount) data)) := by
  have hname : b.pageGroupKeys.getD gid "" = key.text := by
    rw [h.key, hkey]
    rfl
  have hframes : (m.frameTables.getD gid [] ≠ [] ∧ 0 < m.subPagesPerFrame) ↔
      m.hasFrames gid = true := by
    simp [Manifest.hasFrames, Manifest.frameTable, and_comm]
  unfold Browser.fetchPagesForGroup
  rw [hname, if_neg (text_ne_empty key)]
  simp only [h.getGroupPageNums, h.frameTables, h.subPagesPerFrame, h.pageSize, hframes]
  rfl

/-- A page of a seekable object is in the frame that is fetched for it. -/
theorem fetched_seekable (hc : cfg.codecs.Lawful) (hserves : Serves r cfg backend)
    (hsame : SameFields b m) {gid i p : Nat} {key : ObjectKey} {data : Bytes} {pages : List Bytes}
    (hkey : m.groupKey gid = some key) (hdata : backend.objects key = some data)
    (hf : m.hasFrames gid = true) (hps : 0 < m.pageSize)
    (hs : cfg.HoldsSeekable (aadPageGroup gid) data (m.frameTable gid) m.pageSize m.subPagesPerFrame
      pages) (hnd : (m.groupPageNums gid).Nodup) (hp : (m.groupPageNums gid)[i]? = some p)
    {v : Bytes} (hv : pages[i]? = some v) :
    ∃ unit, fetchPagesForGroup r b gid i = .ok unit ∧ unit.lookup p = some v := by
  have hspf : 0 < m.subPagesPerFrame := by
    simp only [Manifest.hasFrames, Bool.and_eq_true, decide_eq_true_eq] at hf
    exact hf.1
  obtain ⟨hi, _⟩ := List.getElem?_eq_some_iff.mp hv
  have hframe : i / m.subPagesPerFrame < (m.frameTable gid).length := by
    rw [hs.length, lt_divCeil_iff hspf]
    exact Nat.lt_of_le_of_lt (Nat.div_mul_le_self _ _) hi
  have hentry := List.getElem?_eq_getElem hframe
  obtain ⟨hfits, hopens⟩ := hs.frame _ _ hentry
  -- the page within its frame
  have hpage : (block m.subPagesPerFrame (i / m.subPagesPerFrame) pages)[i % m.subPagesPerFrame]? =
      some v := by
    rw [getElem?_block_div hspf, hv]
  obtain ⟨hj, hvj⟩ := List.getElem?_eq_some_iff.mp hpage
  have huniform := hs.uniform.block m.subPagesPerFrame (i / m.subPagesPerFrame)
  have hraw : (block m.subPagesPerFrame (i / m.subPagesPerFrame) pages).flatten ≠ [] := by
    intro hnil
    have hlen := length_flatten_of_uniform huniform
    rw [hnil, List.length_nil] at hlen
    have hpos := Nat.mul_pos (Nat.zero_lt_of_lt hj) hps
    omega
  have hslot : (block m.subPagesPerFrame (i / m.subPagesPerFrame)
      (m.groupPageNums gid))[i % m.subPagesPerFrame]? = some p := by
    rw [getElem?_block_div hspf, hp]
  have hslots : (block m.subPagesPerFrame (i / m.subPagesPerFrame) (m.groupPageNums gid)).Nodup :=
    hnd.sublist ((List.take_sublist _ _).trans (List.drop_sublist _ _))
  refine ⟨unitPages m.pageSize (block m.subPagesPerFrame (i / m.subPagesPerFrame) (m.groupPageNums gid))
    (block m.subPagesPerFrame (i / m.subPagesPerFrame) pages).flatten, ?_, ?_⟩
  · rw [hsame.fetchPagesForGroup hkey, if_pos hf, hentry]
    simp only [hserves.fetchFrame hc hdata hfits hopens hraw, ok_bind]
  · rw [lookup_unitPages hslots hslot, block_flatten huniform hj, hvj]

/-- A page of a legacy object is in the object. -/
theorem fetched_legacy (hserves : Serves r cfg backend) (hsame : SameFields b m) {gid i p : Nat}
    {key : ObjectKey} {data : Bytes} {pages : List Bytes} (hkey : m.groupKey gid = some key)
    (hdata : backend.objects key = some data) (hf : m.hasFrames gid = false)
    (hs : cfg.HoldsLegacy (aadPageGroup gid) data m.pageSize pages)
    (hnd : (m.groupPageNums gid).Nodup) (hp : (m.groupPageNums gid)[i]? = some p) {v : Bytes}
    (hv : pages[i]? = some v) :
    ∃ unit, fetchPagesForGroup r b gid i = .ok unit ∧ unit.lookup p = some v := by
  obtain ⟨hi, hvi⟩ := List.getElem?_eq_some_iff.mp hv
  have hget : r.get key.text = .ok data := by simp only [Remote.get, hserves.object, hdata]
  have hfull : r.fetchGroupFull key.text = .ok (pages.length, pages.flatten) := by
    have hheader : ¬ (leBytes 4 pages.length ++ leBytes 4 m.pageSize ++ pages.flatten).length < 8 := by
      simp only [List.length_append, length_leBytes]
      omega
    rw [Remote.fetchGroupFull, hget, ok_bind, hserves.inflate hs.opens, ok_bind, if_neg hheader]
    have hcount : ofLeBytes (leBytes 4 pages.length) = pages.length :=
      ofLeBytes_leBytes (by simpa using hs.length_lt)
    simp [List.drop_append, hcount]
  have hslot : ((m.groupPageNums gid).take pages.length)[i]? = some p := by
    rw [List.getElem?_take, if_pos hi, hp]
  refine ⟨unitPages m.pageSize ((m.groupPageNums gid).take pages.length) pages.flatten, ?_, ?_⟩
  · rw [hsame.fetchPagesForGroup hkey, hf]
    simp only [Bool.false_eq_true, if_false, hfull, ok_bind]
  · rw [lookup_unitPages (hnd.sublist (List.take_sublist _ _)) hslot, block_flatten hs.uniform hi, hvi]

/-- With the fields in hand the fetcher delivers the pages of the base objects: a page that the group's
object holds, whether or not an override holds a newer one. -/
theorem fetched_pages (hc : cfg.codecs.Lawful) (hserves : Serves r cfg backend)
    {ct : Nat → GroupContent} (hst : Stored cfg m backend ct) (hsame : SameFields b m) {p gid i : Nat}
    (hloc : m.pageLocation p = some ⟨gid, i⟩) (hkey : (m.groupKey gid).isSome) {v : Bytes}
    (hv : (ct gid).base[i]? = some v) : deliver r b p = .ok v := by
  have hp := hst.indexed.located hloc
  have hnd : (m.groupPageNums gid).Nodup := Manifest.nodup_groupPageNums hst.nodup gid
  obtain ⟨unit, hunit, hlookup⟩ : ∃ unit, fetchPagesForGroup r b gid i = .ok unit ∧
      unit.lookup p = some v := by
    cases hst.holds gid hkey with
    | inr hnothing =>
      rw [hnothing.base] at hv
      cases hv
    | inl hgroup =>
      obtain ⟨key, data, hk, hdata, hseek, hleg⟩ := hgroup.base
      cases hf : m.hasFrames gid with
      | true => exact fetched_seekable hc hserves hsame hk hdata hf hst.pageSize_pos (hseek hf) hnd hp hv
      | false => exact fetched_legacy hserves hsame hk hdata hf (hleg hf) hnd hp hv
  unfold deliver
  rw [hsame.pageLocation hst.indexed, hloc]
  simp only [hunit, ok_bind, hlookup]

end

end Turbolite.Browser
