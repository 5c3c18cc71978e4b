import Gen2.Backend.Healing
import Gen2.Types.JsonText

/-!
# Texts in which the brackets match

`backend/common/healing.rs`: the scans that count brackets.

* `Nested` is a text in which the brackets match, outside of its strings.
* `balancedBracketLoop_nested`: `balanced_bracket_end` goes through such a text.
* `splitTopLevelLoop_nested`: inside of brackets, `split_top_level_commas` does so too.
-/

namespace Gen2
namespace Backend

open Lib List

/-! ## Texts in which the brackets match -/

/-- A character that no scan stops at. -/
def isPlain (c : Char) : Bool := !(['"', '[', '{', ']', '}'].contains c)

/-- A text in which the brackets match, outside of its strings. -/
inductive Nested : Text → Prop
  | nil : Nested []
  | char (c : Char) (t : Text) (hc : isPlain c = true) (h : Nested t) : Nested (c :: t)
  | string (s t : Text) (hs : InString s) (h : Nested t) : Nested ('"' :: (s ++ '"' :: t))
  | group (opening closing : Char) (s t : Text) (ho : opening = '[' ∨ opening = '{')
      (hc : closing = ']' ∨ closing = '}') (hs : Nested s) (h : Nested t) :
      Nested (opening :: (s ++ closing :: t))

variable {t : Text}

theorem Nested.append {s : Text} (hs : Nested s) (ht : Nested t) : Nested (s ++ t) := by
  induction hs with
  | nil => exact ht
  | char c s hc _ ih => exact .char c _ hc ih
  | string s s' hstring _ ih =>
    rw [cons_append, append_assoc, cons_append]
    exact .string s _ hstring ih
  | group opening closing s s' ho hc hs _ _ ih =>
    rw [cons_append, append_assoc, cons_append]
    exact .group opening closing s _ ho hc hs ih

theorem Nested.of_plain (h : ∀ c ∈ t, isPlain c = true) : Nested t := by
  induction t with
  | nil => exact .nil
  | cons c t ih =>
    exact .char c t (h c mem_cons_self) (ih fun d hd => h d (mem_cons_of_mem _ hd))

theorem isPlain_iff {c : Char} :
    isPlain c = true ↔ c ≠ '"' ∧ c ≠ '[' ∧ c ≠ '{' ∧ c ≠ ']' ∧ c ≠ '}' := by
  simp [isPlain]

/-! ### `balanced_bracket_end` -/

theorem balancedBracketLoop_inString (h : InString t) (i : Nat) (depth : Int) (r : Text) :
    balancedBracketLoop i depth true 0 (t ++ '"' :: r) =
      balancedBracketLoop (i + t.length + 1) depth false 0 r := by
  induction h generalizing i with
  | nil => simp [balancedBracketLoop]
  | char c t hquote hescape _ ih =>
    rw [cons_append, balancedBracketLoop, if_neg (Nat.lt_irrefl 0), if_pos rfl,
      if_neg hescape, show (c != '"') = true by simpa using hquote, ih, length_cons]
    congr 1
    omega
  | escape c t hascii _ ih =>
    rw [cons_append, cons_append, balancedBracketLoop, if_neg (Nat.lt_irrefl 0),
      if_pos rfl, if_pos rfl, balancedBracketLoop, if_pos Nat.zero_lt_one, ih, length_cons,
      length_cons]
    congr 1
    omega

theorem balancedBracketLoop_plain {c : Char} (hc : isPlain c = true) (i : Nat) (depth : Int)
    (r : Text) :
    balancedBracketLoop i depth false 0 (c :: r) = balancedBracketLoop (i + 1) depth false 0 r := by
  obtain ⟨hquote, hbracket, hbrace, hbracket', hbrace'⟩ := isPlain_iff.1 hc
  simp [balancedBracketLoop, hquote, hbracket, hbrace, hbracket', hbrace']

/-- A scan for the end of a bracket goes through a text in which the brackets match. -/
theorem balancedBracketLoop_nested (h : Nested t) (i : Nat) {depth : Int} (hdepth : 1 ≤ depth)
    (r : Text) :
    balancedBracketLoop i depth false 0 (t ++ r) =
      balancedBracketLoop (i + t.length) depth false 0 r := by
  induction h generalizing i depth r with
  | nil => rfl
  | char c t hc _ ih =>
    rw [cons_append, balancedBracketLoop_plain hc, ih _ hdepth, length_cons]
    congr 1
    omega
  | string s t hs _ ih =>
    have hopen : ∀ r, balancedBracketLoop i depth false 0 ('"' :: r) =
        balancedBracketLoop (i + 1) depth true 0 r := fun r => by simp [balancedBracketLoop]
    rw [cons_append, append_assoc, cons_append, hopen,
      balancedBracketLoop_inString hs, ih _ hdepth]
    congr 1
    simp only [length_cons, length_append]
    omega
  | group opening closing s t ho hc _ _ ihs ih =>
    have hopen : ∀ r, balancedBracketLoop i depth false 0 (opening :: r) =
        balancedBracketLoop (i + 1) (depth + 1) false 0 r := by
      rintro r
      rcases ho with rfl | rfl <;> simp [balancedBracketLoop]
    have hclose : ∀ i r, balancedBracketLoop i (depth + 1) false 0 (closing :: r) =
        balancedBracketLoop (i + 1) depth false 0 r := by
      rintro i r
      have hdepth0 : depth ≠ 0 := by omega
      rcases hc with rfl | rfl <;> simp [balancedBracketLoop, hdepth0]
    rw [cons_append, append_assoc, cons_append, hopen, ihs _ (by omega), hclose,
      ih _ hdepth]
    congr 1
    simp only [length_cons, length_append]
    omega

/-- The end of an array. -/
theorem balancedBracketEnd_group (h : Nested t) (r : Text) :
    balancedBracketEnd ('[' :: (t ++ ']' :: r)) = some (t.length + 1) := by
  have hopen : ∀ r, balancedBracketEnd ('[' :: r) = balancedBracketLoop 1 1 false 0 r :=
    fun r => by simp [balancedBracketEnd, balancedBracketLoop]
  rw [hopen, balancedBracketLoop_nested h 1 (le_refl 1)]
  simp [balancedBracketLoop, Nat.add_comm]

/-! ### `split_top_level_commas` -/

theorem splitTopLevelLoop_inString (h : InString t) (depth : Int) (part r : Text) :
    splitTopLevelLoop depth true 0 part (t ++ '"' :: r) =
      splitTopLevelLoop depth false 0 (part ++ (t ++ ['"'])) r := by
  induction h generalizing part with
  | nil => simp [splitTopLevelLoop]
  | char c t hquote hescape _ ih =>
    rw [cons_append, splitTopLevelLoop, if_neg (Nat.lt_irrefl 0), if_pos rfl,
      if_neg hescape, show (c != '"') = true by simpa using hquote, ih]
    simp
  | escape c t hascii _ ih =>
    rw [cons_append, cons_append, splitTopLevelLoop, if_neg (Nat.lt_irrefl 0),
      if_pos rfl, if_pos rfl, splitTopLevelLoop, if_pos Nat.zero_lt_one, ih]
    simp

theorem splitTopLevelLoop_string {s : Text} (h : InString s) (depth : Int) (part r : Text) :
    splitTopLevelLoop depth false 0 part ('"' :: (s ++ '"' :: r)) =
      splitTopLevelLoop depth false 0 (part ++ '"' :: (s ++ ['"'])) r := by
  have hopen : ∀ r, splitTopLevelLoop depth false 0 part ('"' :: r) =
      splitTopLevelLoop depth true 0 (part ++ ['"']) r := fun r => by simp [splitTopLevelLoop]
  rw [hopen, splitTopLevelLoop_inString h]
  simp

theorem splitTopLevelLoop_plain {c : Char} (hc : isPlain c = true) {depth : Int}
    (hcomma : c ≠ ',' ∨ depth ≠ 0) (part r : Text) :
    splitTopLevelLoop depth false 0 part (c :: r) =
      splitTopLevelLoop depth false 0 (part ++ [c]) r := by
  obtain ⟨hquote, hbracket, hbrace, hbracket', hbrace'⟩ := isPlain_iff.1 hc
  rcases hcomma with hcomma | hcomma <;>
    simp [splitTopLevelLoop, hquote, hbracket, hbrace, hbracket', hbrace', hcomma]

theorem splitTopLevelLoop_open {opening : Char} (ho : opening = '[' ∨ opening = '{') (depth : Int)
    (part r : Text) :
    splitTopLevelLoop depth false 0 part (opening :: r) =
      splitTopLevelLoop (depth + 1) false 0 (part ++ [opening]) r := by
  rcases ho with rfl | rfl <;> simp [splitTopLevelLoop]

theorem splitTopLevelLoop_close {closing : Char} (hc : closing = ']' ∨ closing = '}') (depth : Int)
    (part r : Text) :
    splitTopLevelLoop depth false 0 part (closing :: r) =
      splitTopLevelLoop (depth - 1) false 0 (part ++ [closing]) r := by
  rcases hc with rfl | rfl <;> simp [splitTopLevelLoop]

/-- Inside of brackets, a scan for commas goes through a text in which the brackets match. -/
theorem splitTopLevelLoop_nested (h : Nested t) {depth : Int} (hdepth : 1 ≤ depth) (part r : Text) :
    splitTopLevelLoop depth false 0 part (t ++ r) =
      splitTopLevelLoop depth false 0 (part ++ t) r := by
  induction h generalizing depth part r with
  | nil => rw [nil_append, append_nil]
  | char c t hc _ ih =>
    rw [cons_append, splitTopLevelLoop_plain hc (.inr (by omega)), ih hdepth]
    simp
  | string s t hs _ ih =>
    rw [cons_append, append_assoc, cons_append, splitTopLevelLoop_string hs,
      ih hdepth]
    simp
  | group opening closing s t ho hc _ _ ihs ih =>
    rw [cons_append, append_assoc, cons_append, splitTopLevelLoop_open ho,
      ihs (by omega), splitTopLevelLoop_close hc, Int.add_sub_cancel, ih hdepth]
    simp

/-- A bracket and what it encloses stay together. -/
theorem splitTopLevelLoop_group {opening closing : Char}
    (ho : opening = '[' ∨ opening = '{') (hc : closing = ']' ∨ closing = '}') (h : Nested t)
    (part r : Text) :
    splitTopLevelLoop 0 false 0 part (opening :: (t ++ closing :: r)) =
      splitTopLevelLoop 0 false 0 (part ++ opening :: (t ++ [closing])) r := by
  rw [splitTopLevelLoop_open ho, splitTopLevelLoop_nested h (by omega), splitTopLevelLoop_close hc]
  simp

end Backend
end Gen2
