import Turbolite.Wire

/-!
# Turbolite.Serializers

The bytes `rmp_serde` and `ciborium` write for a manifest. msgpack writes a struct as the array of its
fields, CBOR as a map from field names; integers take the shortest form.
-/

namespace Turbolite

/-! ### Texts -/

/-- The UTF-8 bytes of a text. -/
def utf8 (s : String) : Bytes := s.toUTF8.toList

namespace ObjectKey

/-- The key string (`keys.rs`). -/
def text : ObjectKey → String
  | .manifest => "manifest.msgpack"
  | .pageGroup gid v => s!"p/d/{gid}_v{v}"
  | .interiorChunk c v => s!"p/it/{c}_v{v}"
  | .indexChunk c v => s!"p/ix/{c}_v{v}"
  | .overrideFrame gid f v => s!"p/d/{gid}_f{f}_v{v}"

end ObjectKey

/-- An entry of `page_group_keys`; empty without an object. -/
def keyText (k : Option ObjectKey) : String := (k.map ObjectKey.text).getD ""

/-- The variant name of a strategy. -/
def GroupingStrategy.text : GroupingStrategy → String
  | .positional => "Positional"
  | .bTreeAware => "BTreeAware"

/-- The `w` big-endian bytes of `n`. -/
def beBytes (w n : Nat) : Bytes := (leBytes w n).reverse

/-! ### msgpack -/

namespace Msgpack

/-- An unsigned integer. -/
def uint (n : Nat) : Bytes :=
  if n < 128 then [UInt8.ofNat n]
  else if n < 2 ^ 8 then 0xcc :: beBytes 1 n
  else if n < 2 ^ 16 then 0xcd :: beBytes 2 n
  else if n < 2 ^ 32 then 0xce :: beBytes 4 n
  else 0xcf :: beBytes 8 n

/-- A string. -/
def str (s : String) : Bytes :=
  let bytes := utf8 s
  let n := bytes.length
  (if n < 32 then [UInt8.ofNat (0xa0 + n)]
    else if n < 2 ^ 8 then 0xd9 :: beBytes 1 n
    else if n < 2 ^ 16 then 0xda :: beBytes 2 n
    else 0xdb :: beBytes 4 n) ++ bytes

/-- A byte string. -/
def bin (bytes : Bytes) : Bytes :=
  let n := bytes.length
  (if n < 2 ^ 8 then 0xc4 :: beBytes 1 n
    else if n < 2 ^ 16 then 0xc5 :: beBytes 2 n
    else 0xc6 :: beBytes 4 n) ++ bytes

/-- An array of values. -/
def array (xs : List Bytes) : Bytes :=
  let n := xs.length
  (if n < 16 then [UInt8.ofNat (0x90 + n)]
    else if n < 2 ^ 16 then 0xdc :: beBytes 2 n
    else 0xdd :: beBytes 4 n) ++ xs.flatten

/-- A map of keys and values. -/
def map (kvs : List (Bytes × Bytes)) : Bytes :=
  let n := kvs.length
  (if n < 16 then [UInt8.ofNat (0x80 + n)]
    else if n < 2 ^ 16 then 0xde :: beBytes 2 n
    else 0xdf :: beBytes 4 n) ++ kvs.flatMap fun kv => kv.1 ++ kv.2

/-- `FrameEntry`. -/
def frameEntry (e : FrameEntry) : Bytes := array [uint e.offset, uint e.len]

/-- `SubframeOverride`. -/
def subframeOverride (o : SubframeOverride) : Bytes := array [str o.key.text, frameEntry o.entry]

/-- `BTreeManifestEntry`. -/
def btreeEntry (e : BTreeManifestEntry) : Bytes :=
  array [str e.name, str e.objType, array (e.groupIds.map uint), array (e.pages.map uint)]

/-- A hash map, in the order in which it is iterated. -/
def hashMap {β : Type} (value : β → Bytes) (h : HMap Nat β) : Bytes :=
  map (h.entries.map fun e => (uint e.1, value e.2))

/-- `rmp_serde::to_vec` of a manifest. -/
def manifest (m : Manifest) : Bytes :=
  array
    [ uint m.version, uint m.changeCounter, uint m.pageCount, uint m.pageSize, uint m.pagesPerGroup,
      array (m.pageGroupKeys.map fun k => str (keyText k)),
      hashMap (fun k => str k.text) m.interiorChunkKeys,
      hashMap (fun k => str k.text) m.indexChunkKeys,
      array (m.frameTables.map fun ft => array (ft.map frameEntry)),
      uint m.subPagesPerFrame,
      array (m.subframeOverrides.map (hashMap subframeOverride)),
      str m.strategy.text,
      array (m.groupPages.map fun g => array (g.map uint)),
      hashMap btreeEntry m.btrees,
      match m.dbHeader with
      | none => [0xc0]
      | some page0 => array (page0.map fun x => uint x.toNat),
      uint m.discontinuityStamp,
      array [uint m.cursor.lastAppliedSeq, bin m.cursor.baseObjectChecksum, uint m.cursor.epoch],
      str m.writerId ]

end Msgpack

/-! ### CBOR -/

namespace Cbor

/-- Major type and argument. -/
def head (major n : Nat) : Bytes :=
  let tag (low : Nat) : UInt8 := UInt8.ofNat (major * 32 + low)
  if n < 24 then [tag n]
  else if n < 2 ^ 8 then tag 24 :: beBytes 1 n
  else if n < 2 ^ 16 then tag 25 :: beBytes 2 n
  else if n < 2 ^ 32 then tag 26 :: beBytes 4 n
  else tag 27 :: beBytes 8 n

/-- An unsigned integer. -/
def uint (n : Nat) : Bytes := head 0 n

/-- A byte string. -/
def bytes (bs : Bytes) : Bytes := head 2 bs.length ++ bs

/-- A text string. -/
def text (s : String) : Bytes := head 3 (utf8 s).length ++ utf8 s

/-- An array of items. -/
def array (xs : List Bytes) : Bytes := head 4 xs.length ++ xs.flatten

/-- A struct, as a map of its field names. -/
def record (fields : List (String × Bytes)) : Bytes :=
  head 5 fields.length ++ fields.flatMap fun f => text f.1 ++ f.2

/-- `FrameEntry`. -/
def frameEntry (e : FrameEntry) : Bytes := record [("offset", uint e.offset), ("len", uint e.len)]

/-- `SubframeOverride`. -/
def subframeOverride (o : SubframeOverride) : Bytes :=
  record [("key", text o.key.text), ("entry", frameEntry o.entry)]

/-- `BTreeManifestEntry`. -/
def btreeEntry (e : BTreeManifestEntry) : Bytes :=
  record [("name", text e.name), ("obj_type", text e.objType),
    ("group_ids", array (e.groupIds.map uint)), ("pages", array (e.pages.map uint))]

/-- A sorted list of pairs. -/
def pairs {β : Type} (value : β → Bytes) (ps : List (Nat × β)) : Bytes :=
  array (ps.map fun p => array [uint p.1, value p.2])

/-- `ciborium::into_writer` of the wire mirror. -/
def manifest (c : CanonicalManifestV1) : Bytes :=
  record
    [ ("version", uint c.version), ("change_counter", uint c.changeCounter),
      ("discontinuity_stamp", uint c.discontinuityStamp),
      ("cursor", record [("last_applied_seq", uint c.cursor.lastAppliedSeq),
        ("base_object_checksum", bytes c.cursor.baseObjectChecksum), ("epoch", uint c.cursor.epoch)]),
      ("writer_id", text c.writerId), ("page_count", uint c.pageCount),
      ("page_size", uint c.pageSize), ("pages_per_group", uint c.pagesPerGroup),
      ("sub_pages_per_frame", uint c.subPagesPerFrame), ("strategy", text c.strategy.text),
      ("db_header", match c.dbHeader with
        | none => [0xf6]
        | some page0 => array (page0.map fun x => uint x.toNat)),
      ("page_group_keys", array (c.pageGroupKeys.map fun k => text (keyText k))),
      ("frame_tables", array (c.frameTables.map fun ft => array (ft.map frameEntry))),
      ("group_pages", array (c.groupPages.map fun g => array (g.map uint))),
      ("btrees", pairs btreeEntry c.btrees),
      ("interior_chunk_keys", pairs (fun k => text k.text) c.interiorChunkKeys),
      ("index_chunk_keys", pairs (fun k => text k.text) c.indexChunkKeys),
      ("subframe_overrides", array (c.subframeOverrides.map (pairs subframeOverride))) ]

end Cbor

/-! ### The serializers on one manifest -/

/-- The serializers, with decoders that know the bytes of one manifest. -/
def Serde.on (m : Manifest) : Serde where
  toVec := Msgpack.manifest
  fromSlice bytes := if bytes = Msgpack.manifest m then .ok m.persisted else .error "invalid msgpack"
  intoWriter := Cbor.manifest
  fromReader bytes :=
    if bytes = Cbor.manifest m.toCanonical then .ok m.toCanonical else .error "invalid cbor"

theorem Serde.roundTrips_on (m : Manifest) : (Serde.on m).RoundTrips m :=
  ⟨if_pos rfl, if_pos rfl⟩

end Turbolite
