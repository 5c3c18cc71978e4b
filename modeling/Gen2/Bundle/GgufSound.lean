import Gen2.Bundle.Gguf

/-!
# The readers of a GGUF header are sound

Each is exact, and what it does is paid for by the bytes that are there: the lengths and the counts
that a file declares are worth nothing.

* `skipArray_sound`, by the nesting that is left.
* `parseGgufMetadata_sound`.
-/

namespace Gen2.Gguf

open Lib ByteReader.Sound

theorem readLe_sound (size : Nat) : (readLe size).Sound (1 - size) :=
  (take size EOF).map ofLe

/-- What is read for a length pays for itself and for what it is the length of. -/
theorem skipExact_sound (len : Nat) : (skipExact len).Sound (1 - len) :=
  (take len _).map fun _ => ()

theorem readLenPrefixedString_sound : readLenPrefixedString.Sound (-6) := by
  refine ((readLe_sound 8).bind 1 (fun len => ?_) (by decide)).mono (by decide)
  split
  · exact .fail _ _
  · exact ((take len _).map fromUtf8Lossy).mono (by omega)

theorem skipLenPrefixedString_sound : skipLenPrefixedString.Sound (-6) := by
  refine ((readLe_sound 8).bind 1 (fun len => ?_) (by decide)).mono (by decide)
  exact (skipExact_sound len).mono (by omega)

/-- **An array is skipped soundly**, however it is nested and whatever its counts are. -/
theorem skipArray_sound (left elementType len : Nat) :
    (skipArray left elementType len).Sound 1 := by
  induction left generalizing elementType len with
  | zero => exact .fail _ _
  | succ left ih =>
    rw [skipArray]
    split
    · exact (times (by decide) (fun _ => skipLenPrefixedString_sound) len ()).mono
        (by decide)
    split
    · refine (times (c := -9) (by decide) (fun _ => ?_) len ()).mono (by decide)
      refine ((readLe_sound 4).bind (-6) (fun nestedType => ?_) (by decide)).mono (by decide)
      exact (readLe_sound 8).bind 1 (fun nestedLen => ih nestedType nestedLen) (by decide)
    · split
      · split
        · exact .fail _ _
        · exact (skipExact_sound _).mono (by omega)
      · exact .fail _ _

theorem primitiveByteSize_pos {valueType size : Nat} (h : primitiveByteSize valueType = some size) :
    0 < size := by
  rw [primitiveByteSize.eq_def] at h
  split at h <;> cases h <;> decide

theorem skipValue_sound (valueType : Nat) : (skipValue valueType).Sound 0 := by
  rw [skipValue]
  split
  · exact skipLenPrefixedString_sound.mono (by decide)
  split
  · refine ((readLe_sound 4).bind (-6) (fun elementType => ?_) (by decide)).mono (by decide)
    exact (readLe_sound 8).bind 1 (fun len => skipArray_sound _ elementType len) (by decide)
  split
  next size hsize =>
    have hpos := primitiveByteSize_pos hsize
    exact (skipExact_sound size).mono (by omega)
  next => exact .fail _ _

theorem readValueAsString_sound (valueType : Nat) : (readValueAsString valueType).Sound 0 := by
  rw [readValueAsString]
  split
  · exact (readLenPrefixedString_sound.map some).mono (by decide)
  · exact (skipValue_sound valueType).map fun _ => none

theorem readUnsigned_sound (size : Nat) (h : 0 < size) : (readUnsigned size).Sound 0 :=
  ((readLe_sound size).map some).mono (by omega)

theorem readSigned_sound (size : Nat) (h : 0 < size) : (readSigned size).Sound 0 :=
  ((readLe_sound size).map _).mono (by omega)

theorem readValueAsU64_sound (valueType : Nat) : (readValueAsU64 valueType).Sound 0 := by
  rw [readValueAsU64.eq_def]
  split
  · exact readUnsigned_sound 1 (by decide)
  · exact readSigned_sound 1 (by decide)
  · exact readUnsigned_sound 2 (by decide)
  · exact readSigned_sound 2 (by decide)
  · exact readUnsigned_sound 4 (by decide)
  · exact readSigned_sound 4 (by decide)
  · exact readUnsigned_sound 8 (by decide)
  · exact readSigned_sound 8 (by decide)
  · exact (skipValue_sound _).map fun _ => none

theorem readWidth_sound (key : Text) (valueType : Nat) (state : ParseState) :
    (readWidth key valueType state).Sound 0 := by
  rw [readWidth]
  split
  · exact .fail _ _
  split
  · exact .fail _ _
  · refine ((readValueAsU64_sound valueType).mapErr _).bind 0 (fun value => ?_) (by decide)
    split
    · exact .fail _ _
    · exact .pure _

theorem readPerLayer_sound : readPerLayer.Sound 0 := by
  refine (((readLe_sound 4).mapErr _).bind 0 (fun kind => ?_) (by decide)).mono (by decide)
  refine (((readLe_sound 8).mapErr _).bind 0 (fun count => ?_) (by decide)).mono (by decide)
  split
  · exact .fail _ _
  · refine (times (c := 0) (by decide) (fun out => ?_) count _).map _
    exact ((readValueAsU64_sound kind).mapErr _).map _

theorem readEntry_sound (state : ParseState) : (readEntry state).Sound 0 := by
  refine ((readLenPrefixedString_sound.mapErr _).bind 0 (fun key => ?_) (by decide)).mono
    (by decide)
  refine (((readLe_sound 4).mapErr _).bind 0 (fun valueType => ?_) (by decide)).mono
    (by decide)
  split
  · exact ((readValueAsString_sound valueType).mapErr _).map _
  · exact ((readValueAsU64_sound valueType).mapErr _).map _
  · exact readWidth_sound key valueType state
  · split
    · exact readPerLayer_sound.map _
    · exact ((readValueAsU64_sound valueType).mapErr _).map _
  · exact ((skipValue_sound valueType).mapErr _).map fun _ => state

/-- **A header is read soundly.** -/
theorem parseGgufMetadata_sound : parseGgufMetadata.Sound 0 := by
  refine (((take 4 EOF).mapErr _).bind 0 (fun magic => ?_) (by decide)).mono
    (by decide)
  split
  · exact .fail _ _
  refine (((readLe_sound 4).mapErr _).bind 0 (fun version => ?_) (by decide)).mono
    (by decide)
  split
  · exact .fail _ _
  refine (((readLe_sound 8).mapErr _).bind 0 (fun _ => ?_) (by decide)).mono (by decide)
  refine (((readLe_sound 8).mapErr _).bind 0 (fun kvCount => ?_) (by decide)).mono
    (by decide)
  refine (times (c := 0) (by decide) readEntry_sound kvCount _).bind 0
    (fun state => ?_) (by decide)
  rw [settle.eq_def]
  split
  · exact .pure _
  · exact .fail _ _

end Gen2.Gguf
