import Gen2.Types.Message

/-!
# Text

What the source takes from the standard library's `str` and `char`, where Lean's own `String` has
something else or nothing.
-/

namespace Gen2

open List

/-- `char::is_whitespace`: the Unicode property `White_Space`. -/
def isWhitespace (c : Char) : Bool :=
  let n := c.toNat
  (0x09 ≤ n && n ≤ 0x0d) || n == 0x20 || n == 0x85 || n == 0xa0 || n == 0x1680 ||
    (0x2000 ≤ n && n ≤ 0x200a) || n == 0x2028 || n == 0x2029 || n == 0x202f || n == 0x205f ||
    n == 0x3000

/-- The letters and digits of ASCII lie between `0` and `z`. -/
theorem toNat_of_isAlphanum {c : Char} (h : c.isAlphanum = true) :
    0x30 ≤ c.toNat ∧ c.toNat ≤ 0x7a := by
  have hparts : ((decide ('A'.val ≤ c.val ∧ c.val ≤ 'Z'.val) ||
      decide ('a'.val ≤ c.val) && decide (c.val ≤ 'z'.val)) ||
        decide ('0'.val ≤ c.val) && decide (c.val ≤ '9'.val)) = true := h
  simp only [Bool.or_eq_true, Bool.and_eq_true, decide_eq_true_eq,
    UInt32.le_iff_toNat_le] at hparts
  rcases hparts with (hletter | hletter) | hdigit
  · exact ⟨Nat.le_trans (by decide) hletter.1, Nat.le_trans hletter.2 (by decide)⟩
  · exact ⟨Nat.le_trans (by decide) hletter.1, Nat.le_trans hletter.2 (by decide)⟩
  · exact ⟨hdigit.1, Nat.le_trans hdigit.2 (by decide)⟩

/-- A `&str` that is looked at character by character.  Where the source counts bytes, so that a
length or an offset is more than a length of a part of the same text, `utf8` gives them. -/
abbrev Text := List Char

/-- `str::as_bytes` of a text. -/
def utf8 (t : Text) : List UInt8 := t.flatMap String.utf8EncodeChar

/-- `str::len`. -/
def strLen (t : Text) : Nat := (utf8 t).length

/-- `str::trim` leaves nothing. -/
def isBlank (s : String) : Bool := s.toList.all isWhitespace

/-! ## Trimming, and runs of characters -/

/-- How many white characters a text begins with: what `str::trim_start` takes off. -/
def wsLen (t : Text) : Nat := (t.takeWhile isWhitespace).length

/-- `str::trim_end`. -/
def trimEnd (t : Text) : Text := (t.reverse.dropWhile isWhitespace).reverse

/-- `str::trim`. -/
def trim (t : Text) : Text := trimEnd (t.dropWhile isWhitespace)

/-- `u8::is_ascii_whitespace`. -/
def isAsciiWhitespace (c : Char) : Bool := [' ', '\t', '\n', '\x0c', '\r'].contains c

/-- `str::strip_prefix`. -/
def stripPrefix (t start : Text) : Option Text :=
  if start.isPrefixOf t then some (t.drop start.length) else none

/-- `str::strip_suffix`. -/
def stripSuffix (t ending : Text) : Option Text :=
  if ending.isSuffixOf t then some (t.take (t.length - ending.length)) else none

/-- `str::rfind`, as a number of characters. -/
def rfind (t needle : Text) : Option Nat :=
  (List.range (t.length + 1)).reverse.find? fun i => needle.isPrefixOf (t.drop i)

/-! ## Bytes -/

/-- `String::from_utf8`. -/
def fromUtf8 (bytes : List UInt8) : Option String := String.fromUTF8? ⟨bytes.toArray⟩

theorem strLen_cons (c : Char) (t : Text) : strLen (c :: t) = c.utf8Size + strLen t := by
  simp [strLen, utf8]

theorem strLen_append (s t : Text) : strLen (s ++ t) = strLen s + strLen t := by
  simp [strLen, utf8]

/-- The characters of a text that lie within its first `n` bytes: what is left when it is cut at the
last character boundary there. -/
def takeBytes : Nat → Text → Text
  | _, [] => []
  | n, c :: t => if c.utf8Size ≤ n then c :: takeBytes (n - c.utf8Size) t else []

theorem takeBytes_append (n : Nat) (s t : Text) :
    takeBytes n (s ++ t) = if strLen s ≤ n then s ++ takeBytes (n - strLen s) t
      else takeBytes n s := by
  induction s generalizing n with
  | nil => simp [strLen, utf8]
  | cons c s ih =>
    rw [cons_append, takeBytes, takeBytes, strLen_cons]
    by_cases hc : c.utf8Size ≤ n
    · rw [if_pos hc, if_pos hc, ih]
      by_cases hs : strLen s ≤ n - c.utf8Size
      · rw [if_pos hs, if_pos (by omega), Nat.sub_sub, cons_append]
      · rw [if_neg hs, if_neg (by omega)]
    · rw [if_neg hc, if_neg hc, if_neg (by omega)]

theorem takeBytes_zero (t : Text) : takeBytes 0 t = [] := by
  cases t with
  | nil => rfl
  | cons c t => exact if_neg (Nat.not_le.2 c.utf8Size_pos)

/-- A cut behind a character boundary. -/
theorem takeBytes_strLen_take_add (i n : Nat) (t : Text) :
    takeBytes (strLen (t.take i) + n) t = t.take i ++ takeBytes n (t.drop i) := by
  have hsplit := takeBytes_append (strLen (t.take i) + n) (t.take i) (t.drop i)
  rwa [take_append_drop, if_pos (Nat.le_add_right _ _), Nat.add_sub_cancel_left] at hsplit

/-- A cut at a character boundary. -/
theorem takeBytes_strLen_take (i : Nat) (t : Text) :
    takeBytes (strLen (t.take i)) t = t.take i := by
  rw [← Nat.add_zero (strLen (t.take i)), takeBytes_strLen_take_add, takeBytes_zero,
    append_nil]

theorem asBytes_append (s t : String) : asBytes (s ++ t) = asBytes s ++ asBytes t := by
  simp [asBytes]

theorem asBytes_ofList (t : Text) : asBytes (String.ofList t) = utf8 t := by
  simp [asBytes, utf8, String.toByteArray_ofList, utf8Encode]

/-- No byte of a text is `0xff`. -/
theorem ff_not_mem_asBytes (s : String) : (0xff : UInt8) ∉ asBytes s := by
  have hchar : ∀ (c : Char), ∀ b ∈ String.utf8EncodeChar c, b.toNat < 0xff := by
    intro c b hb
    rw [String.utf8EncodeChar] at hb
    split_ifs at hb <;> simp only [mem_cons, not_mem_nil, or_false] at hb <;>
      rcases hb with rfl | rfl | rfl | rfl <;> rw [UInt8.toNat_ofNat'] <;> omega
  intro hmem
  rw [← String.ofList_toList (s := s), asBytes_ofList, utf8, mem_flatMap] at hmem
  obtain ⟨c, -, hc⟩ := hmem
  exact absurd (hchar c _ hc) (by decide)

theorem fromUtf8_asBytes (s : String) : fromUtf8 (asBytes s) = some s := by
  have hbytes : (⟨(asBytes s).toArray⟩ : ByteArray) = s.toByteArray := by
    rw [asBytes, Array.toArray_toList, String.toUTF8_eq_toByteArray]
  rw [fromUtf8, hbytes, String.fromUTF8?, dif_pos s.isValidUTF8]
  rfl

theorem asBytes_of_fromUtf8 {bytes : List UInt8} {s : String} (h : fromUtf8 bytes = some s) :
    asBytes s = bytes := by
  rw [fromUtf8, String.fromUTF8?] at h
  split at h
  · rw [← Option.some.inj h]
    rfl
  · cases h

theorem asBytes_inj {s t : String} (h : asBytes s = asBytes t) : s = t := by
  have hs := fromUtf8_asBytes s
  rw [h, fromUtf8_asBytes] at hs
  exact (Option.some.inj hs).symm

/-- What holds of every member of a list, by going through the list. -/
theorem forall_mem_of_all {α : Type} {p : α → Prop} [DecidablePred p] {xs : List α}
    (h : (xs.all fun x => decide (p x)) = true) : ∀ x ∈ xs, p x := by
  simpa using h

/-- What ends with a byte that is not in it ends at the same place. -/
theorem append_end_inj {α : Type} {xs ys after after' : List α} {e : α} (hx : e ∉ xs)
    (hy : e ∉ ys) (h : xs ++ e :: after = ys ++ e :: after') : xs = ys ∧ after = after' := by
  induction xs generalizing ys with
  | nil =>
    cases ys with
    | nil => exact ⟨rfl, (cons.inj h).2⟩
    | cons y ys => exact absurd ((cons.inj h).1 ▸ mem_cons_self) hy
  | cons x xs ih =>
    cases ys with
    | nil => exact absurd ((cons.inj h).1 ▸ mem_cons_self) hx
    | cons y ys =>
      obtain ⟨rfl, hrest⟩ := cons.inj h
      obtain ⟨rfl, hafter⟩ := ih (fun hmem => hx (mem_cons_of_mem _ hmem))
        (fun hmem => hy (mem_cons_of_mem _ hmem)) hrest
      exact ⟨rfl, hafter⟩

end Gen2
