import Gen2.Lib.Sha256
import Gen2.Types.Text

/-!
# The framing of a KV snapshot

`kv/codec.rs` and `kv/types.rs`.  A snapshot is written as

* the magic, 7 bytes;
* the length of the header's JSON, a `u32`, low byte first;
* the SHA-256 of the header's JSON;
* the header's JSON, which holds the metadata and the SHA-256 of the payload;
* the payload, up to the end.

**Slices.**  A slice of the source panics where its range does not lie in the bytes.  Here a slice
is an `Option`, and so is everything that `parseBlob` returns: `none` is a panic, `some (.error _)`
a refusal.

**`serde_json`** is the class `HeaderJson`: what it writes for a header, and what it reads.  A
result that needs it to read back what it wrote says so of the header it is about.
-/

namespace Gen2
namespace Kv

open List

/-- `KvMeta`. -/
structure KvMeta where
  modelUuid : String
  nCtx : UInt32
  nLayer : UInt32
  tokenizerDigest : Digest
  templateFingerprint : Digest
  createdAtUs : Int64
  kvTokenCount : UInt64
  transcriptSha256 : Digest
  deriving DecidableEq

/-- `KvHeader`. -/
structure KvHeader where
  version : UInt16
  kvMeta : KvMeta
  payloadSha256 : Digest
  deriving DecidableEq

/-- What the codec uses of `serde_json`. -/
class HeaderJson where
  /-- `serde_json::to_vec`. -/
  toVec : KvHeader → Option (List UInt8)
  /-- `serde_json::from_slice`. -/
  fromSlice : List UInt8 → Except String KvHeader

/-! ## Constants -/

def magic : List UInt8 := [0x50, 0x49, 0x4f, 0x4b, 0x56, 0x31, 0x00]

def formatVersion : UInt16 := 2

def headerDigestLen : Nat := 32

def headerStart : Nat := magic.length + 4 + headerDigestLen

/-- `usize::MAX` of a 64-bit target. -/
def usizeMax : Nat := 2 ^ 64 - 1

/-! ## Integers and slices -/

/-- `u32::to_le_bytes`. -/
def u32ToLeBytes (n : UInt32) : List UInt8 :=
  [n.toNat.toUInt8, (n.toNat / 2 ^ 8).toUInt8, (n.toNat / 2 ^ 16).toUInt8,
    (n.toNat / 2 ^ 24).toUInt8]

/-- `u32::from_le_bytes`, as a `usize`; `none` where the slice is not of four bytes. -/
def u32FromLeBytes : List UInt8 → Option Nat
  | [b0, b1, b2, b3] =>
    some (b0.toNat + 2 ^ 8 * b1.toNat + 2 ^ 16 * b2.toNat + 2 ^ 24 * b3.toNat)
  | _ => none

/-- `&bytes[start..stop]`: a panic where the range is not one of the bytes. -/
def slice (bytes : List UInt8) (start stop : Nat) : Option (List UInt8) :=
  if start ≤ stop ∧ stop ≤ bytes.length then some ((bytes.drop start).take (stop - start)) else none

/-- `usize::checked_add`. -/
def checkedAdd (m n : Nat) : Option Nat := if m + n ≤ usizeMax then some (m + n) else none

theorem u32ToLeBytes_length (n : UInt32) : (u32ToLeBytes n).length = 4 := rfl

theorem u32FromLeBytes_toLeBytes (n : UInt32) : u32FromLeBytes (u32ToLeBytes n) = some n.toNat := by
  have hn := n.toNat_lt
  simp only [u32ToLeBytes, u32FromLeBytes, Nat.toUInt8, UInt8.toNat_ofNat', Option.some.injEq]
  omega

theorem u32FromLeBytes_eq_some {bytes : List UInt8} (hlen : bytes.length = 4) :
    ∃ n, u32FromLeBytes bytes = some n ∧ n < 2 ^ 32 ∧ u32ToLeBytes (UInt32.ofNat n) = bytes := by
  match bytes, hlen with
  | [b0, b1, b2, b3], _ =>
    have h0 := b0.toNat_lt
    have h1 := b1.toNat_lt
    have h2 := b2.toNat_lt
    have h3 := b3.toNat_lt
    have hlt : b0.toNat + 2 ^ 8 * b1.toNat + 2 ^ 16 * b2.toNat + 2 ^ 24 * b3.toNat < 2 ^ 32 := by
      omega
    refine ⟨_, rfl, hlt, ?_⟩
    rw [u32ToLeBytes, UInt32.toNat_ofNat', Nat.mod_eq_of_lt hlt]
    congr 1
    · exact UInt8.toNat_inj.1 (by rw [Nat.toUInt8, UInt8.toNat_ofNat']; omega)
    congr 1
    · exact UInt8.toNat_inj.1 (by rw [Nat.toUInt8, UInt8.toNat_ofNat']; omega)
    congr 1
    · exact UInt8.toNat_inj.1 (by rw [Nat.toUInt8, UInt8.toNat_ofNat']; omega)
    congr 1
    exact UInt8.toNat_inj.1 (by rw [Nat.toUInt8, UInt8.toNat_ofNat']; omega)

theorem slice_append (before inside after : List UInt8) :
    slice (before ++ (inside ++ after)) before.length (before.length + inside.length) =
      some inside := by
  rw [slice, if_pos (by simp only [length_append]; omega), drop_left,
    Nat.add_sub_cancel_left, take_left]

theorem slice_to_end (before after : List UInt8) :
    slice (before ++ after) before.length (before ++ after).length = some after := by
  have h := slice_append before after []
  rwa [append_nil, ← length_append] at h

/-! ## Writing -/

/-- The bytes around a header's JSON and a payload. -/
def frame (headerJson payload : List UInt8) : List UInt8 :=
  magic ++ u32ToLeBytes (UInt32.ofNat headerJson.length) ++ (sha256 headerJson).toList ++
    headerJson ++ payload

/-! ## Frames -/

theorem exists_parts {bytes : List UInt8} (h : headerStart ≤ bytes.length) :
    ∃ start lenBytes headerDigest rest : List UInt8,
      bytes = start ++ (lenBytes ++ (headerDigest ++ rest)) ∧ start.length = magic.length ∧
        lenBytes.length = 4 ∧ headerDigest.length = headerDigestLen := by
  have hstart : headerStart = magic.length + 4 + headerDigestLen := rfl
  refine ⟨bytes.take magic.length, (bytes.drop magic.length).take 4,
    ((bytes.drop magic.length).drop 4).take headerDigestLen,
    ((bytes.drop magic.length).drop 4).drop headerDigestLen, ?_, ?_, ?_, ?_⟩
  · rw [take_append_drop, take_append_drop, take_append_drop]
  · rw [length_take]
    omega
  · rw [length_take, length_drop]
    omega
  · rw [length_take, length_drop, length_drop]
    omega

theorem frame_parts (headerJson payload : List UInt8) :
    frame headerJson payload =
      magic ++ (u32ToLeBytes (UInt32.ofNat headerJson.length) ++ ((sha256 headerJson).toList ++
        (headerJson ++ payload))) := by
  simp only [frame, append_assoc]

theorem frame_length (headerJson payload : List UInt8) :
    (frame headerJson payload).length = headerStart + headerJson.length + payload.length := by
  rw [frame_parts]
  simp only [length_append, u32ToLeBytes_length, digest_toList_length]
  rw [show headerStart = magic.length + 4 + 32 from rfl]
  omega

theorem prefix_append {α : Type} {xs ys xs' ys' : List α} (hlen : xs.length = xs'.length)
    (h : xs ++ ys <+: xs' ++ ys') : xs = xs' ∧ ys <+: ys' := by
  obtain ⟨after, hafter⟩ := h
  rw [append_assoc] at hafter
  obtain ⟨hxs, hys⟩ := append_inj hafter hlen
  exact ⟨hxs, after, hys⟩

/-- A frame tells where its header ends. -/
theorem frame_inj {headerJson headerJson' payload payload' : List UInt8}
    (hlt : headerJson.length < 2 ^ 32) (hlt' : headerJson'.length < 2 ^ 32)
    (h : frame headerJson payload <+: frame headerJson' payload') :
    headerJson = headerJson' ∧ payload <+: payload' := by
  rw [frame_parts, frame_parts] at h
  obtain ⟨-, h⟩ := prefix_append rfl h
  obtain ⟨hle, h⟩ := prefix_append (by simp only [u32ToLeBytes_length]) h
  obtain ⟨-, h⟩ := prefix_append (by simp only [digest_toList_length]) h
  have hlen : headerJson.length = headerJson'.length := by
    have hread := u32FromLeBytes_toLeBytes (UInt32.ofNat headerJson.length)
    rw [hle, u32FromLeBytes_toLeBytes, Option.some.injEq, UInt32.toNat_ofNat', UInt32.toNat_ofNat',
      Nat.mod_eq_of_lt hlt, Nat.mod_eq_of_lt hlt'] at hread
    exact hread.symm
  exact prefix_append hlen h

/-- Everything of a blob up to its payload. -/
def beforePayload (bytes payload : List UInt8) : List UInt8 :=
  bytes.take (bytes.length - payload.length)

theorem beforePayload_frame (headerJson payload : List UInt8) :
    beforePayload (frame headerJson payload) payload = frame headerJson [] := by
  have hlen := frame_length headerJson []
  rw [length_nil, Nat.add_zero] at hlen
  have happend : frame headerJson payload = frame headerJson [] ++ payload := by
    simp only [frame, append_nil]
  rw [beforePayload, frame_length, Nat.add_sub_cancel, happend, take_left' hlen]

section Codec

variable [HeaderJson]

/-- The header that `build_blob` writes. -/
def headerOf (kvMeta : KvMeta) (payload : List UInt8) : KvHeader :=
  ⟨formatVersion, kvMeta, sha256 payload⟩

/-- `build_blob`. -/
def buildBlob (kvMeta : KvMeta) (payload : List UInt8) : Option (List UInt8) :=
  (HeaderJson.toVec (headerOf kvMeta payload)).map fun headerJson => frame headerJson payload

/-! ## Reading -/

/-- `parse_blob`, from the header's JSON on. -/
def parseHeader (bytes headerDigest : List UInt8) (headerEnd : Nat) :
    Option (Except String (KvHeader × List UInt8)) := do
  let headerJson ← slice bytes headerStart headerEnd
  if (sha256 headerJson).toList ≠ headerDigest then
    return .error "header checksum mismatch"
  else
    match HeaderJson.fromSlice headerJson with
    | .error e => return .error e
    | .ok header =>
      if header.version ≠ formatVersion then
        return .error ("unsupported KV blob version " ++ toString header.version ++
          " (this build writes " ++ toString formatVersion ++ ")")
      else
        let payload ← slice bytes headerEnd bytes.length
        if sha256 payload ≠ header.payloadSha256 then
          return .error "payload checksum mismatch"
        else
          return .ok (header, payload)

/-- `parse_blob`. -/
def parseBlob (bytes : List UInt8) : Option (Except String (KvHeader × List UInt8)) := do
  if bytes.length < headerStart then
    return .error "blob too small"
  else
    let start ← slice bytes 0 magic.length
    if start ≠ magic then
      return .error "bad magic"
    else
      let lenBytes ← slice bytes magic.length (magic.length + 4)
      match u32FromLeBytes lenBytes with
      | none => return .error "invalid header length bytes"
      | some headerLen =>
        let headerDigest ← slice bytes (magic.length + 4) headerStart
        match checkedAdd headerStart headerLen with
        | none => return .error "header length out of range"
        | some headerEnd =>
          if bytes.length < headerEnd then
            return .error "blob truncated"
          else
            parseHeader bytes headerDigest headerEnd

/-! ## What a frame is made of -/

/-- What is checked once the frame has been taken apart. -/
def checkParts (headerJson headerDigest payload : List UInt8) :
    Except String (KvHeader × List UInt8) :=
  if (sha256 headerJson).toList ≠ headerDigest then .error "header checksum mismatch"
  else
    match HeaderJson.fromSlice headerJson with
    | .error e => .error e
    | .ok header =>
      if header.version ≠ formatVersion then
        .error ("unsupported KV blob version " ++ toString header.version ++
          " (this build writes " ++ toString formatVersion ++ ")")
      else if sha256 payload ≠ header.payloadSha256 then .error "payload checksum mismatch"
      else .ok (header, payload)

theorem parseHeader_parts {start : List UInt8} (headerJson payload headerDigest : List UInt8)
    (hstart : start.length = headerStart) :
    parseHeader (start ++ (headerJson ++ payload)) headerDigest
      (headerStart + headerJson.length) =
        some (checkParts headerJson headerDigest payload) := by
  have hjson := slice_append start headerJson payload
  have hpayload := slice_to_end (start ++ headerJson) payload
  rw [append_assoc, length_append, hstart] at hpayload
  rw [hstart] at hjson
  rw [parseHeader, checkParts, hjson]
  dsimp only [Option.bind_eq_bind, Option.bind_some, Option.pure_def]
  split
  · rfl
  split
  · rfl
  split
  · rfl
  · rw [hpayload]
    dsimp only [Option.bind_some]
    split <;> rfl

/-- **A blob that is not too small, taken apart.** -/
theorem parseBlob_parts {start lenBytes headerDigest rest : List UInt8} {headerLen : Nat}
    (hstart : start.length = magic.length) (hlen : lenBytes.length = 4)
    (hdigest : headerDigest.length = headerDigestLen)
    (hheaderLen : u32FromLeBytes lenBytes = some headerLen) (hle : headerLen < 2 ^ 32) :
    parseBlob (start ++ (lenBytes ++ (headerDigest ++ rest))) =
      some (if start ≠ magic then .error "bad magic"
        else if rest.length < headerLen then .error "blob truncated"
        else checkParts (rest.take headerLen) headerDigest (rest.drop headerLen)) := by
  have hstartSlice : slice (start ++ (lenBytes ++ (headerDigest ++ rest))) 0 magic.length =
      some start := by
    have h := slice_append [] start (lenBytes ++ (headerDigest ++ rest))
    rwa [nil_append, length_nil, Nat.zero_add, hstart] at h
  have hlenSlice : slice (start ++ (lenBytes ++ (headerDigest ++ rest))) magic.length
      (magic.length + 4) = some lenBytes := by
    have h := slice_append start lenBytes (headerDigest ++ rest)
    rwa [hstart, hlen] at h
  have hdigestSlice : slice (start ++ (lenBytes ++ (headerDigest ++ rest))) (magic.length + 4)
      headerStart = some headerDigest := by
    have h := slice_append (start ++ lenBytes) headerDigest rest
    rwa [append_assoc, length_append, hstart, hlen, hdigest] at h
  have hstartLen : (start ++ (lenBytes ++ headerDigest)).length = headerStart := by
    rw [length_append, length_append, hstart, hlen, hdigest]
    rfl
  have hwhole : (start ++ (lenBytes ++ (headerDigest ++ rest))).length =
      headerStart + rest.length := by
    rw [← hstartLen]
    simp only [length_append]
    omega
  have hadd : checkedAdd headerStart headerLen = some (headerStart + headerLen) := by
    rw [checkedAdd, if_pos]
    have : headerStart + 2 ^ 32 ≤ usizeMax := by decide
    omega
  rw [parseBlob, hwhole, if_neg (by omega), hstartSlice]
  dsimp only [Option.bind_eq_bind, Option.bind_some, Option.pure_def]
  by_cases hmagic : start = magic
  · rw [if_neg (by simpa using hmagic), if_neg (by simpa using hmagic), hlenSlice]
    dsimp only [Option.bind_some]
    rw [hheaderLen]
    dsimp only
    rw [hdigestSlice]
    dsimp only [Option.bind_some]
    rw [hadd]
    dsimp only
    by_cases hshort : rest.length < headerLen
    · rw [if_pos (by omega), if_pos hshort]
    have hparts := parseHeader_parts (rest.take headerLen) (rest.drop headerLen) headerDigest
      hstartLen
    rw [take_append_drop, length_take, Nat.min_eq_left (by omega), append_assoc,
      append_assoc] at hparts
    rw [if_neg (by omega), if_neg hshort, hparts]
  · rw [if_pos hmagic, if_pos hmagic]

/-! ## What is accepted -/

theorem checkParts_eq_ok {headerJson headerDigest payload payload' : List UInt8}
    {header : KvHeader} :
    checkParts headerJson headerDigest payload = .ok (header, payload') ↔
      (sha256 headerJson).toList = headerDigest ∧ HeaderJson.fromSlice headerJson = .ok header ∧
        header.version = formatVersion ∧ sha256 payload = header.payloadSha256 ∧
          payload = payload' := by
  rw [checkParts]
  split
  next hne => simp [hne]
  next heq =>
    split
    next e he => simp [he]
    next header' hok =>
      rw [hok]
      split
      next hv =>
        constructor
        · intro h
          cases h
        · rintro ⟨-, h, hv', -⟩
          exact absurd (Except.ok.inj h ▸ hv') hv
      next hv =>
        split
        next hsha =>
          constructor
          · intro h
            cases h
          · rintro ⟨-, h, -, hsha', -⟩
            exact absurd (Except.ok.inj h ▸ hsha') hsha
        next hsha =>
          simp only [ne_eq, not_not] at heq hv hsha
          constructor
          · intro h
            obtain ⟨rfl, rfl⟩ := Prod.mk.inj (Except.ok.inj h)
            exact ⟨heq, rfl, hv, hsha, rfl⟩
          · rintro ⟨-, h, -, -, rfl⟩
            rw [Except.ok.inj h]

/-- **Exactly the frames are accepted**: those of a header that reads back, of the version in use,
with a payload that has the digest recorded in it. -/
theorem parseBlob_eq_ok {bytes payload : List UInt8} {header : KvHeader} :
    parseBlob bytes = some (.ok (header, payload)) ↔
      ∃ headerJson, bytes = frame headerJson payload ∧ headerJson.length < 2 ^ 32 ∧
        HeaderJson.fromSlice headerJson = .ok header ∧ header.version = formatVersion ∧
          sha256 payload = header.payloadSha256 := by
  constructor
  · intro h
    by_cases hshort : bytes.length < headerStart
    · rw [parseBlob, if_pos hshort] at h
      cases h
    obtain ⟨start, lenBytes, headerDigest, rest, rfl, hstart, hlen, hdigest⟩ :=
      exists_parts (Nat.le_of_not_lt hshort)
    obtain ⟨headerLen, hheaderLen, hlt, hle⟩ := u32FromLeBytes_eq_some hlen
    rw [parseBlob_parts hstart hlen hdigest hheaderLen hlt, Option.some.injEq] at h
    split at h
    · cases h
    next hmagic =>
      split at h
      · cases h
      next hlong =>
        obtain ⟨hsha, hread, hversion, hpayload, rfl⟩ := checkParts_eq_ok.1 h
        have htake : (rest.take headerLen).length = headerLen := by
          rw [length_take]
          omega
        refine ⟨rest.take headerLen, ?_, htake.symm ▸ hlt, hread, hversion, hpayload⟩
        rw [frame_parts, htake, hle, hsha, take_append_drop, not_ne_iff.1 hmagic]
  · rintro ⟨headerJson, rfl, hlt, hread, hversion, hpayload⟩
    have hlen := u32FromLeBytes_toLeBytes (UInt32.ofNat headerJson.length)
    rw [UInt32.toNat_ofNat', Nat.mod_eq_of_lt hlt] at hlen
    rw [frame_parts, parseBlob_parts rfl (u32ToLeBytes_length _) (digest_toList_length _) hlen hlt,
      if_neg (not_ne_iff.2 rfl), if_neg (by rw [length_append]; omega), take_left,
      drop_left, checkParts_eq_ok.2 ⟨rfl, hread, hversion, hpayload, rfl⟩]

/-- Reading never panics. -/
theorem parseBlob_total (bytes : List UInt8) : ∃ result, parseBlob bytes = some result := by
  by_cases hshort : bytes.length < headerStart
  · exact ⟨_, by rw [parseBlob, if_pos hshort]; rfl⟩
  · obtain ⟨start, lenBytes, headerDigest, rest, rfl, hstart, hlen, hdigest⟩ :=
      exists_parts (Nat.le_of_not_lt hshort)
    obtain ⟨headerLen, hheaderLen, hlt, -⟩ := u32FromLeBytes_eq_some hlen
    exact ⟨_, parseBlob_parts hstart hlen hdigest hheaderLen hlt⟩

/-! ## What an accepted blob can be turned into -/

/-- Two accepted blobs that differ, one of which continues the other or which are the same up to the
payload, have payloads that collide. -/
theorem parseBlob_collision {bytes bytes' payload payload' : List UInt8} {header header' : KvHeader}
    (h : parseBlob bytes = some (.ok (header, payload)))
    (h' : parseBlob bytes' = some (.ok (header', payload'))) (hne : bytes ≠ bytes')
    (hsame : bytes <+: bytes' ∨ beforePayload bytes payload = beforePayload bytes' payload') :
    Collision payload payload' := by
  obtain ⟨headerJson, rfl, hlt, hread, -, hsha⟩ := parseBlob_eq_ok.1 h
  obtain ⟨headerJson', rfl, hlt', hread', -, hsha'⟩ := parseBlob_eq_ok.1 h'
  obtain rfl : headerJson = headerJson' := by
    rcases hsame with hprefix | heq
    · exact (frame_inj hlt hlt' hprefix).1
    · rw [beforePayload_frame, beforePayload_frame] at heq
      have hprefix : frame headerJson [] <+: frame headerJson' [] := heq ▸ prefix_rfl
      exact (frame_inj hlt hlt' hprefix).1
  obtain rfl : header = header' := by
    rw [hread] at hread'
    exact Except.ok.inj hread'
  exact ⟨fun heq => hne (by rw [heq]), hsha.trans hsha'.symm⟩

/-! ## The round trip -/

/-- **A snapshot reads back as it was written, unless its header is 4 GiB long**: the length of the
header is written as a `u32`. -/
theorem roundTrip_iff {kvMeta : KvMeta} {payload headerJson : List UInt8}
    (hwrite : HeaderJson.toVec (headerOf kvMeta payload) = some headerJson)
    (hread : HeaderJson.fromSlice headerJson = .ok (headerOf kvMeta payload)) :
    (∃ blob, buildBlob kvMeta payload = some blob ∧
        ∃ header, parseBlob blob = some (.ok (header, payload)) ∧ header.kvMeta = kvMeta) ↔
      headerJson.length < 2 ^ 32 := by
  have hbuild : buildBlob kvMeta payload = some (frame headerJson payload) := by
    rw [buildBlob, hwrite, Option.map_some]
  constructor
  · rintro ⟨blob, hblob, header, hparse, -⟩
    rw [hbuild, Option.some.injEq] at hblob
    subst hblob
    obtain ⟨headerJson', heq, hlt, -⟩ := parseBlob_eq_ok.1 hparse
    have hlen := congrArg length heq
    rw [frame_length, frame_length] at hlen
    omega
  · intro hlt
    exact ⟨_, hbuild, _, parseBlob_eq_ok.2 ⟨headerJson, rfl, hlt, hread, rfl, rfl⟩, rfl⟩

end Codec

/-! ## A header that is written and read -/

/-- What `serde_json` writes for an array of bytes. -/
def bytesText (bytes : List UInt8) : String :=
  "[" ++ ",".intercalate (bytes.map toString) ++ "]"

/-- What `serde_json` writes for a header whose model id needs no escapes. -/
def headerText (header : KvHeader) : List UInt8 :=
  asBytes ("\x7b\"version\":" ++ toString header.version ++ ",\"meta\":\x7b\"model_uuid\":") ++
    asBytes (SerdeJson.quote header.kvMeta.modelUuid) ++
    asBytes (",\"n_ctx\":" ++ toString header.kvMeta.nCtx ++
      ",\"n_layer\":" ++ toString header.kvMeta.nLayer ++
      ",\"tokenizer_digest\":" ++ bytesText header.kvMeta.tokenizerDigest.toList ++
      ",\"template_fingerprint\":" ++ bytesText header.kvMeta.templateFingerprint.toList ++
      ",\"created_at_us\":" ++ toString header.kvMeta.createdAtUs ++
      ",\"kv_token_count\":" ++ toString header.kvMeta.kvTokenCount ++
      ",\"transcript_sha256\":" ++ bytesText header.kvMeta.transcriptSha256.toList ++
      "\x7d,\"payload_sha256\":" ++ bytesText header.payloadSha256.toList ++ "\x7d")

/-- `serde_json` as it treats one header: it writes it, and reads what it wrote. -/
abbrev HeaderJson.only (header : KvHeader) : HeaderJson where
  toVec header := some (headerText header)
  fromSlice bytes := if bytes = headerText header then .ok header else .error "expected a header"

/-- The metadata of a model of the given name. -/
def plainMeta (modelUuid : String) : KvMeta :=
  ⟨modelUuid, 1024, 12, Vector.replicate 32 1, Vector.replicate 32 42, 123, 0,
    Vector.replicate 32 0⟩

end Kv
end Gen2
