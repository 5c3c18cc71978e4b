import Gen2.Types.Text

/-!
# Text out of any bytes

`String::from_utf8_lossy`: a character for each that is encoded, and `U+FFFD` for each longest
beginning of one that is not finished.
-/

namespace Gen2

/-- The character the bytes begin with. -/
def decodeChar (bytes : List UInt8) : Option Char :=
  (bytes.take 4).toByteArray.utf8DecodeChar? 0

/-- Whether `b` may follow a first byte of three or four. -/
def isSecond (first b : UInt8) : Bool :=
  if first = 0xe0 then 0xa0 ≤ b && b ≤ 0xbf
  else if first = 0xed then 0x80 ≤ b && b ≤ 0x9f
  else if first = 0xf0 then 0x90 ≤ b && b ≤ 0xbf
  else if first = 0xf4 then 0x80 ≤ b && b ≤ 0x8f
  else 0x80 ≤ b && b ≤ 0xbf

/-- How many bytes one `U+FFFD` stands for, where no character begins. -/
def invalidLen : List UInt8 → Nat
  | first :: b :: rest =>
    if 0xe0 ≤ first && first ≤ 0xef && isSecond first b then 2
    else if 0xf0 ≤ first && first ≤ 0xf4 && isSecond first b then
      match rest with
      | b' :: _ => if 0x80 ≤ b' && b' ≤ 0xbf then 3 else 2
      | [] => 2
    else 1
  | _ => 1

/-- The first `skip` bytes have been read. -/
def lossyFrom : Nat → List UInt8 → Text
  | _, [] => []
  | skip + 1, _ :: bytes => lossyFrom skip bytes
  | 0, b :: bytes =>
    match decodeChar (b :: bytes) with
    | some c => c :: lossyFrom (c.utf8Size - 1) bytes
    | none => '\uFFFD' :: lossyFrom (invalidLen (b :: bytes) - 1) bytes

/-- `String::from_utf8_lossy`. -/
def fromUtf8Lossy (bytes : List UInt8) : Text := lossyFrom 0 bytes

theorem lossyFrom_drop (skip : Nat) (bytes : List UInt8) :
    lossyFrom skip bytes = lossyFrom 0 (bytes.drop skip) := by
  induction bytes generalizing skip with
  | nil => cases skip <;> rfl
  | cons b bytes ih =>
    cases skip with
    | zero => rfl
    | succ skip => exact ih skip

theorem decodeChar_utf8EncodeChar (c : Char) (bytes : List UInt8) :
    decodeChar (String.utf8EncodeChar c ++ bytes) = some c := by
  have hlength : (String.utf8EncodeChar c).length ≤ 4 := by
    rw [String.length_utf8EncodeChar]
    exact c.utf8Size_le_four
  rw [decodeChar, List.take_append, List.take_of_length_le hlength, List.toByteArray_append]
  exact ByteArray.utf8DecodeChar?_utf8EncodeChar_append

end Gen2
