import Gen2.Bundle.Gguf

/-!
# The format of GGUF headers

What a file holds, how it is written, and that each reader reads what was written for it and no
more.

* `skipArray_body`: an array is skipped to its end, whatever it is made of, if its nesting is
  allowed.
* `skipValue_payload`, `readValueAsString_payload`, `readValueAsU64_payload`: so is every value, and
  what it says is read if it is of the type that is wanted.
-/

namespace Gen2.Gguf

open Lib List ByteReader

/-! ## What is written -/

/-- The types that have a fixed size. -/
inductive Primitive
  | uint8 | int8 | uint16 | int16 | uint32 | int32 | float32 | bool | uint64 | int64 | float64
  deriving DecidableEq

def Primitive.code : Primitive → Nat
  | uint8 => GGUF_TYPE_UINT8
  | int8 => GGUF_TYPE_INT8
  | uint16 => GGUF_TYPE_UINT16
  | int16 => GGUF_TYPE_INT16
  | uint32 => GGUF_TYPE_UINT32
  | int32 => GGUF_TYPE_INT32
  | float32 => GGUF_TYPE_FLOAT32
  | bool => GGUF_TYPE_BOOL
  | uint64 => GGUF_TYPE_UINT64
  | int64 => GGUF_TYPE_INT64
  | float64 => GGUF_TYPE_FLOAT64

def Primitive.size : Primitive → Nat
  | uint8 | int8 | bool => 1
  | uint16 | int16 => 2
  | uint32 | int32 | float32 => 4
  | uint64 | int64 | float64 => 8

/-- The bits of a value. -/
abbrev Primitive.Bits (p : Primitive) : Type := Fin (256 ^ p.size)

/-- The number that the bits are, if it is one without a sign or not negative. -/
def Primitive.integer? : (p : Primitive) → p.Bits → Option Nat
  | uint8, n | uint16, n | uint32, n | uint64, n => some n
  | int8, n => if 2 ^ 7 ≤ n.1 then none else some n
  | int16, n => if 2 ^ 15 ≤ n.1 then none else some n
  | int32, n => if 2 ^ 31 ≤ n.1 then none else some n
  | int64, n => if 2 ^ 63 ≤ n.1 then none else some n
  | float32, _ | bool, _ | float64, _ => none

/-- An array, by what it is made of. -/
inductive GgufArray
  | primitives (p : Primitive) (items : List p.Bits)
  | strings (items : List (List UInt8))
  | arrays (items : List GgufArray)

inductive GgufValue
  | primitive (p : Primitive) (bits : p.Bits)
  | string (bytes : List UInt8)
  | array (a : GgufArray)

/-- A key with its value. -/
structure Entry where
  key : List UInt8
  value : GgufValue

/-! ## How it is written -/

/-- A number in so many bytes, the lowest first. -/
def leBytes : Nat → Nat → List UInt8
  | 0, _ => []
  | size + 1, n => UInt8.ofNat n :: leBytes size (n / 256)

def writeString (bytes : List UInt8) : List UInt8 := leBytes 8 bytes.length ++ bytes

def GgufArray.elementType : GgufArray → Nat
  | primitives p _ => p.code
  | strings _ => GGUF_TYPE_STRING
  | arrays _ => GGUF_TYPE_ARRAY

def GgufArray.count : GgufArray → Nat
  | primitives _ items => items.length
  | strings items => items.length
  | arrays items => items.length

mutual
/-- The elements of an array, as they are written. -/
def GgufArray.body : GgufArray → List UInt8
  | primitives p items => items.flatMap fun n : p.Bits => leBytes p.size n
  | strings items => items.flatMap writeString
  | arrays items => bodies items

def GgufArray.bodies : List GgufArray → List UInt8
  | [] => []
  | a :: items => leBytes 4 a.elementType ++ (leBytes 8 a.count ++ (a.body ++ bodies items))
end

mutual
/-- How deep an array is nested, itself counted. -/
def GgufArray.depth : GgufArray → Nat
  | primitives _ _ | strings _ => 1
  | arrays items => depths items + 1

def GgufArray.depths : List GgufArray → Nat
  | [] => 0
  | a :: items => max a.depth (depths items)
end

def GgufValue.type : GgufValue → Nat
  | primitive p _ => p.code
  | string _ => GGUF_TYPE_STRING
  | array _ => GGUF_TYPE_ARRAY

/-- A value without its type. -/
def GgufValue.payload : GgufValue → List UInt8
  | primitive p bits => leBytes p.size bits
  | string bytes => writeString bytes
  | array a => leBytes 4 a.elementType ++ (leBytes 8 a.count ++ a.body)

def GgufValue.depth : GgufValue → Nat
  | primitive _ _ | string _ => 0
  | array a => a.depth

/-- The text a value is, if it is one. -/
def GgufValue.string? : GgufValue → Option Text
  | string bytes => some (fromUtf8Lossy bytes)
  | _ => none

/-- The number a value is, if it is one and not negative. -/
def GgufValue.integer? : GgufValue → Option Nat
  | primitive p bits => p.integer? bits
  | _ => none

def Entry.write (e : Entry) : List UInt8 :=
  writeString e.key ++ (leBytes 4 e.value.type ++ e.value.payload)

/-! ## Numbers -/

theorem length_leBytes (size n : Nat) : (leBytes size n).length = size := by
  induction size generalizing n with
  | zero => rfl
  | succ size ih => rw [leBytes, length_cons, ih]

theorem ofLe_leBytes {size n : Nat} (h : n < 256 ^ size) : ofLe (leBytes size n) = n := by
  induction size generalizing n with
  | zero =>
    rw [Nat.pow_zero, Nat.lt_one_iff] at h
    rw [h]
    rfl
  | succ size ih =>
    have hrest : n / 256 < 256 ^ size := by
      rw [Nat.pow_succ] at h
      exact Nat.div_lt_of_lt_mul (by rwa [Nat.mul_comm])
    rw [leBytes, ofLe, ih hrest, UInt8.toNat_ofNat']
    exact Nat.mod_add_div n 256

/-- **A number is read as it was written.** -/
theorem readLe_run {size n : Nat} (h : n < 256 ^ size) (rest : List UInt8) :
    (readLe size).run (leBytes size n ++ rest) = .ok (n, rest) := by
  rw [readLe, run_bind_of_ok
    (run_exact_append EOF (length_leBytes size n) rest), ofLe_leBytes h]
  rfl

theorem readLe_eight {n : Nat} (h : n < 2 ^ 64) (rest : List UInt8) :
    (readLe 8).run (leBytes 8 n ++ rest) = .ok (n, rest) :=
  readLe_run (Nat.lt_of_lt_of_le h (by decide)) rest

theorem skipExact_run {len : Nat} {bytes : List UInt8} (h : bytes.length = len)
    (rest : List UInt8) : (skipExact len).run (bytes ++ rest) = .ok ((), rest) := by
  rw [skipExact, run_bind_of_ok (run_exact_append _ h rest)]
  rfl

/-! ## Strings -/

theorem length_writeString (bytes : List UInt8) :
    (writeString bytes).length = 8 + bytes.length := by
  rw [writeString, length_append, length_leBytes]

theorem skipLenPrefixedString_run {bytes : List UInt8} (h : bytes.length < 2 ^ 64)
    (rest : List UInt8) :
    skipLenPrefixedString.run (writeString bytes ++ rest) = .ok ((), rest) := by
  rw [skipLenPrefixedString, writeString, append_assoc,
    run_bind_of_ok (readLe_eight h _)]
  exact skipExact_run rfl rest

theorem readLenPrefixedString_run {bytes : List UInt8} (h : bytes.length ≤ MAX_STRING_BYTES)
    (rest : List UInt8) :
    readLenPrefixedString.run (writeString bytes ++ rest) = .ok (fromUtf8Lossy bytes, rest) := by
  have hlt : bytes.length < 2 ^ 64 := Nat.lt_of_le_of_lt h (by decide)
  rw [readLenPrefixedString, writeString, append_assoc,
    run_bind_of_ok (readLe_eight hlt _), if_neg (Nat.not_lt.2 h),
    run_bind_of_ok (run_exact_append _ rfl rest)]
  rfl

/-! ## Arrays -/

theorem Primitive.size_pos (p : Primitive) : 0 < p.size := by cases p <;> decide

theorem Primitive.code_lt (p : Primitive) : p.code < 256 ^ 4 := by cases p <;> decide

theorem Primitive.code_ne_string (p : Primitive) : p.code ≠ GGUF_TYPE_STRING := by
  cases p <;> decide

theorem Primitive.code_ne_array (p : Primitive) : p.code ≠ GGUF_TYPE_ARRAY := by
  cases p <;> decide

theorem primitiveByteSize_code (p : Primitive) : primitiveByteSize p.code = some p.size := by
  cases p <;> rfl

theorem length_le_flatMap {α : Type} {write : α → List UInt8} (h : ∀ a, 1 ≤ (write a).length)
    (items : List α) : items.length ≤ (items.flatMap write).length := by
  induction items with
  | nil => exact Nat.le_refl _
  | cons a items ih =>
    have ha := h a
    rw [flatMap_cons, length_append, length_cons]
    omega

theorem length_flatMap_leBytes {p : Primitive} (items : List p.Bits) :
    (items.flatMap fun n : p.Bits => leBytes p.size n).length = p.size * items.length := by
  induction items with
  | nil => rfl
  | cons n items ih =>
    rw [flatMap_cons, length_append, length_leBytes, ih, length_cons, Nat.mul_succ,
      Nat.add_comm]

theorem GgufArray.elementType_lt (a : GgufArray) : a.elementType < 256 ^ 4 := by
  cases a with
  | primitives p items => exact p.code_lt
  | strings items => exact (by decide : GGUF_TYPE_STRING < 256 ^ 4)
  | arrays items => exact (by decide : GGUF_TYPE_ARRAY < 256 ^ 4)

open GgufArray

theorem GgufArray.length_le_bodies (items : List GgufArray) :
    items.length ≤ (bodies items).length := by
  induction items with
  | nil => exact Nat.le_refl _
  | cons a items ih =>
    rw [bodies, length_append, length_append, length_append,
      length_leBytes, length_cons]
    omega

/-- What is counted is there. -/
theorem GgufArray.count_le_body (a : GgufArray) : a.count ≤ a.body.length := by
  cases a with
  | primitives p items =>
    rw [count, body, length_flatMap_leBytes]
    exact Nat.le_mul_of_pos_left _ p.size_pos
  | strings items =>
    rw [count, body]
    refine length_le_flatMap (fun bytes => ?_) items
    rw [length_writeString]
    omega
  | arrays items =>
    rw [count, body]
    exact length_le_bodies items

theorem skipStrings_run (items : List (List UInt8))
    (hsize : (items.flatMap writeString).length < 2 ^ 64) (rest : List UInt8) :
    (times items.length (fun _ => skipLenPrefixedString) ()).run
      (items.flatMap writeString ++ rest) = .ok ((), rest) := by
  let inv : Unit → List (List UInt8) → Prop := fun _ items =>
    (items.flatMap writeString).length < 2 ^ 64
  have hturn : ∀ (a : Unit) (bytes : List UInt8) (items : List (List UInt8)) (rest : List UInt8),
      inv a (bytes :: items) →
        skipLenPrefixedString.run (writeString bytes ++ rest) = .ok ((), rest) ∧ inv () items := by
    intro a bytes items rest h
    dsimp only [inv] at h ⊢
    rw [flatMap_cons, length_append, length_writeString] at h
    exact ⟨skipLenPrefixedString_run (by omega) rest, by omega⟩
  exact run_times_flatMap hturn items () rest hsize

mutual
/-- **An array is skipped to its end.** -/
theorem skipArray_body (a : GgufArray) {left : Nat} (hdepth : a.depth ≤ left)
    (hsize : a.body.length < 2 ^ 64) (rest : List UInt8) :
    (skipArray left a.elementType a.count).run (a.body ++ rest) = .ok ((), rest) := by
  cases left with
  | zero => cases a <;> simp [GgufArray.depth] at hdepth
  | succ left =>
    cases a with
    | primitives p items =>
      have hlength := length_flatMap_leBytes items
      rw [GgufArray.body] at hsize ⊢
      rw [GgufArray.elementType, GgufArray.count, skipArray, if_neg p.code_ne_string,
        if_neg p.code_ne_array, primitiveByteSize_code]
      dsimp only
      rw [if_neg (by omega)]
      exact skipExact_run hlength rest
    | strings items =>
      rw [GgufArray.elementType, GgufArray.count, skipArray, if_pos rfl, GgufArray.body]
      rw [GgufArray.body] at hsize
      exact skipStrings_run items hsize rest
    | arrays items =>
      rw [GgufArray.elementType, GgufArray.count, skipArray, if_neg (by decide), if_pos rfl,
        GgufArray.body]
      rw [GgufArray.body] at hsize
      rw [GgufArray.depth] at hdepth
      exact skipArrays_bodies items (Nat.le_of_succ_le_succ hdepth) hsize rest

theorem skipArrays_bodies (items : List GgufArray) {left : Nat}
    (hdepth : depths items ≤ left) (hsize : (bodies items).length < 2 ^ 64)
    (rest : List UInt8) :
    (times items.length (fun _ => do
      let nestedType ← readLe 4
      let nestedLen ← readLe 8
      skipArray left nestedType nestedLen) ()).run (bodies items ++ rest) =
        .ok ((), rest) := by
  cases items with
  | nil => rfl
  | cons a items =>
    have hcount := a.count_le_body
    rw [depths] at hdepth
    rw [bodies, length_append, length_append, length_append] at hsize
    have hdepth' : a.depth ≤ left := by omega
    have hdepths : depths items ≤ left := by omega
    have hfirst := skipArray_body a hdepth' (by omega) (bodies items ++ rest)
    have hrest := skipArrays_bodies items hdepths (by omega) rest
    rw [bodies]
    simp only [append_assoc]
    refine (run_bind_of_ok ?_).trans hrest
    rw [run_bind_of_ok (readLe_run a.elementType_lt _),
      run_bind_of_ok (readLe_eight (by omega) _)]
    exact hfirst
end

/-! ## Values -/

theorem GgufValue.type_lt (v : GgufValue) : v.type < 256 ^ 4 := by
  cases v with
  | primitive p bits => exact p.code_lt
  | string bytes => exact (by decide : GGUF_TYPE_STRING < 256 ^ 4)
  | array a => exact (by decide : GGUF_TYPE_ARRAY < 256 ^ 4)

open GgufValue

/-- **A value is skipped to its end.** -/
theorem skipValue_payload (v : GgufValue) (hdepth : v.depth ≤ MAX_ARRAY_DEPTH + 1)
    (hsize : v.payload.length < 2 ^ 64) (rest : List UInt8) :
    (skipValue v.type).run (v.payload ++ rest) = .ok ((), rest) := by
  cases v with
  | primitive p bits =>
    rw [type, skipValue, if_neg p.code_ne_string, if_neg p.code_ne_array,
      primitiveByteSize_code]
    exact skipExact_run (length_leBytes _ _) rest
  | string bytes =>
    rw [payload, length_writeString] at hsize
    rw [type, skipValue, if_pos rfl]
    exact skipLenPrefixedString_run (by omega) rest
  | array a =>
    have hcount := a.count_le_body
    rw [payload, length_append, length_append] at hsize
    rw [type, skipValue, if_neg (by decide), if_pos rfl, payload,
      append_assoc, append_assoc,
      run_bind_of_ok (readLe_run a.elementType_lt _),
      run_bind_of_ok (readLe_eight (by omega) _)]
    exact skipArray_body a hdepth (by omega) rest

/-- **A string is read, and anything else is skipped.** -/
theorem readValueAsString_payload (v : GgufValue) (hdepth : v.depth ≤ MAX_ARRAY_DEPTH + 1)
    (hsize : v.payload.length < 2 ^ 64)
    (hstring : ∀ bytes, v = .string bytes → bytes.length ≤ MAX_STRING_BYTES) (rest : List UInt8) :
    (readValueAsString v.type).run (v.payload ++ rest) = .ok (v.string?, rest) := by
  have hskip := skipValue_payload v hdepth hsize rest
  cases v with
  | primitive p bits =>
    have hne : (primitive p bits).type ≠ GGUF_TYPE_STRING := p.code_ne_string
    rw [readValueAsString, if_neg hne, run_bind_of_ok hskip]
    rfl
  | string bytes =>
    have hread := readLenPrefixedString_run (hstring bytes rfl) rest
    have heq : (string bytes).type = GGUF_TYPE_STRING := rfl
    rw [readValueAsString, if_pos heq]
    exact run_bind_of_ok hread
  | array a =>
    have hne : (array a).type ≠ GGUF_TYPE_STRING :=
      (by decide : GGUF_TYPE_ARRAY ≠ GGUF_TYPE_STRING)
    rw [readValueAsString, if_neg hne, run_bind_of_ok hskip]
    rfl

/-- **A number is read, and anything else is skipped.** -/
theorem readValueAsU64_payload (v : GgufValue) (hdepth : v.depth ≤ MAX_ARRAY_DEPTH + 1)
    (hsize : v.payload.length < 2 ^ 64) (rest : List UInt8) :
    (readValueAsU64 v.type).run (v.payload ++ rest) = .ok (v.integer?, rest) := by
  have hskip := skipValue_payload v hdepth hsize rest
  cases v with
  | primitive p bits =>
    have hread := readLe_run bits.2 rest
    cases p with
    | uint8 | uint16 | uint32 | uint64 => exact run_bind_of_ok hread
    | int8 | int16 | int32 | int64 => exact run_bind_of_ok hread
    | float32 | bool | float64 => exact run_bind_of_ok hskip
  | string bytes => exact run_bind_of_ok hskip
  | array a => exact run_bind_of_ok hskip

end Gen2.Gguf
