import Gen2.Types.Lossy

/-!
# Text out of bytes that arrive in pieces

What lossy decoding makes of two stretches of bytes, each by itself and both together.

* `isChar` says which bytes are those of a character, and `isUnfinished` which are the beginning of
  one that needs more (`isChar_iff`).
* `complete` is the text of the bytes up to such a beginning at their end, and `pending` is that
  beginning.  What follows goes on from there (`lossy_append`).
* `Joined`: what follows goes on with the character.  The texts of pieces are together the text of
  all the bytes if and only if no piece is joined to what follows it (`lossy_flatten_iff`).
-/

namespace Gen2

open List

/-! ## The bytes of a character -/

/-- Whether `b` may stand in a character behind its second byte. -/
def isTail (b : UInt8) : Bool := 0x80 ≤ b && b ≤ 0xbf

/-- The bytes of a character. -/
def isChar : List UInt8 → Bool
  | [a] => a ≤ 0x7f
  | [a, b] => 0xc2 ≤ a && a ≤ 0xdf && isTail b
  | [a, b, c] => 0xe0 ≤ a && a ≤ 0xef && isSecond a b && isTail c
  | [a, b, c, d] => 0xf0 ≤ a && a ≤ 0xf4 && isSecond a b && isTail c && isTail d
  | _ => false

/-- The bytes that a character begins with which needs more. -/
def isUnfinished : List UInt8 → Bool
  | [a] => 0xc2 ≤ a && a ≤ 0xf4
  | [a, b] => 0xe0 ≤ a && a ≤ 0xf4 && isSecond a b
  | [a, b, c] => 0xf0 ≤ a && a ≤ 0xf4 && isSecond a b && isTail c
  | _ => false

variable {b : UInt8}

theorem isTail_iff : isTail b = true ↔ 0x80 ≤ b.toNat ∧ b.toNat ≤ 0xbf := by
  simp [isTail, UInt8.le_iff_toNat_le]

/-- The second byte is a tail, and bounded behind four first bytes. -/
theorem isSecond_iff {a : UInt8} : isSecond a b = true ↔
    (0x80 ≤ b.toNat ∧ b.toNat ≤ 0xbf) ∧ (a.toNat = 0xe0 → 0xa0 ≤ b.toNat) ∧
      (a.toNat = 0xed → b.toNat ≤ 0x9f) ∧ (a.toNat = 0xf0 → 0x90 ≤ b.toNat) ∧
        (a.toNat = 0xf4 → b.toNat ≤ 0x8f) := by
  simp only [isSecond, ← UInt8.toNat_inj]
  split_ifs <;> simp [UInt8.le_iff_toNat_le] at * <;> omega

theorem exists_char {n : Nat} (h : n.isValidChar) : ∃ c : Char, c.val.toNat = n :=
  ⟨Char.ofNatAux n h, rfl⟩

theorem ofNat_eq {n : Nat} (h : n = b.toNat) : UInt8.ofNat n = b := by
  rw [h, UInt8.ofNat_toNat]

variable {u : List UInt8}

/-- **The bytes of characters.** -/
theorem isChar_iff : isChar u = true ↔ ∃ c, String.utf8EncodeChar c = u := by
  constructor
  · intro h
    match u with
    | [a] =>
      simp only [isChar, decide_eq_true_eq, UInt8.le_iff_toNat_le, UInt8.reduceToNat] at h
      obtain ⟨c, hc⟩ := exists_char (n := a.toNat) (by simp only [Nat.isValidChar]; omega)
      refine ⟨c, ?_⟩
      rw [String.utf8EncodeChar, hc, if_pos h, UInt8.ofNat_toNat]
    | [a, b] =>
      simp only [isChar, Bool.and_eq_true, decide_eq_true_eq, UInt8.le_iff_toNat_le,
        UInt8.reduceToNat, isTail_iff] at h
      obtain ⟨c, hc⟩ := exists_char (n := (a.toNat - 0xc0) * 64 + (b.toNat - 0x80))
        (by simp only [Nat.isValidChar]; omega)
      refine ⟨c, ?_⟩
      rw [String.utf8EncodeChar, hc, if_neg (by omega), if_pos (by omega),
        ofNat_eq (b := a) (by omega), ofNat_eq (b := b) (by omega)]
    | [a, b, d] =>
      simp only [isChar, Bool.and_eq_true, decide_eq_true_eq, UInt8.le_iff_toNat_le,
        UInt8.reduceToNat, isTail_iff, isSecond_iff] at h
      -- the bounds on the second byte keep the number out of the surrogates, and long enough
      obtain ⟨c, hc⟩ := exists_char
        (n := (a.toNat - 0xe0) * 4096 + (b.toNat - 0x80) * 64 + (d.toNat - 0x80))
        (by simp only [Nat.isValidChar]; omega)
      refine ⟨c, ?_⟩
      rw [String.utf8EncodeChar, hc, if_neg (by omega), if_neg (by omega), if_pos (by omega),
        ofNat_eq (b := a) (by omega), ofNat_eq (b := b) (by omega), ofNat_eq (b := d) (by omega)]
    | [a, b, d, e] =>
      simp only [isChar, Bool.and_eq_true, decide_eq_true_eq, UInt8.le_iff_toNat_le,
        UInt8.reduceToNat, isTail_iff, isSecond_iff] at h
      obtain ⟨c, hc⟩ := exists_char
        (n := (a.toNat - 0xf0) * 262144 + (b.toNat - 0x80) * 4096 + (d.toNat - 0x80) * 64 +
          (e.toNat - 0x80))
        (by simp only [Nat.isValidChar]; omega)
      refine ⟨c, ?_⟩
      rw [String.utf8EncodeChar, hc, if_neg (by omega), if_neg (by omega), if_neg (by omega),
        ofNat_eq (b := a) (by omega), ofNat_eq (b := b) (by omega), ofNat_eq (b := d) (by omega),
        ofNat_eq (b := e) (by omega)]
  · rintro ⟨c, rfl⟩
    have hvalid : c.val.toNat < 0xd800 ∨ 0xdfff < c.val.toNat ∧ c.val.toNat < 0x110000 := c.valid
    rw [String.utf8EncodeChar]
    split_ifs <;>
      simp only [isChar, Bool.and_eq_true, decide_eq_true_eq, UInt8.le_iff_toNat_le,
        UInt8.reduceToNat, isTail_iff, isSecond_iff, UInt8.toNat_ofNat', Nat.reducePow] <;>
      omega

theorem isChar_utf8EncodeChar (c : Char) : isChar (String.utf8EncodeChar c) = true :=
  isChar_iff.2 ⟨c, rfl⟩

/-- A beginning of a character is unfinished, or is all of it. -/
theorem isUnfinished_of_prefix {v : List UInt8} (hne : u ≠ []) (h : isChar (u ++ v) = true) :
    isUnfinished u = true ∨ v = [] := by
  match u, v with
  | _, [] => exact .inr rfl
  | [a], b :: v =>
    left
    match v with
    | [] | [_] | [_, _] =>
      simp only [isChar, isUnfinished, cons_append, nil_append, Bool.and_eq_true,
        decide_eq_true_eq, UInt8.le_iff_toNat_le, UInt8.reduceToNat] at h ⊢
      omega
    | _ :: _ :: _ :: _ => simp [isChar] at h
  | [a, b], d :: v =>
    left
    match v with
    | [] | [_] =>
      simp only [isChar, isUnfinished, cons_append, nil_append, Bool.and_eq_true,
        decide_eq_true_eq, UInt8.le_iff_toNat_le, UInt8.reduceToNat] at h ⊢
      exact ⟨⟨by omega, by omega⟩, by tauto⟩
    | _ :: _ :: _ => simp [isChar] at h
  | [a, b, d], e :: v =>
    left
    match v with
    | [] =>
      simp only [isChar, isUnfinished, cons_append, nil_append, Bool.and_eq_true] at h ⊢
      tauto
    | _ :: _ => simp [isChar] at h
  | _ :: _ :: _ :: _ :: _, _ :: _ => simp [isChar] at h

/-- No character stands at the front of an unfinished one. -/
theorem not_isChar_of_unfinished {v : List UInt8} (h : isUnfinished (u ++ v) = true) :
    isChar u = false := by
  match u, v with
  | [], _ => rfl
  | [a], [] | [a], [_] | [a], [_, _] =>
    simp only [isChar, isUnfinished, cons_append, nil_append, Bool.and_eq_true,
      decide_eq_true_eq, decide_eq_false_iff_not, UInt8.le_iff_toNat_le, UInt8.reduceToNat] at h ⊢
    omega
  | [a, b], [] | [a, b], [_] =>
    simp only [isChar, isUnfinished, cons_append, nil_append, Bool.and_eq_true,
      Bool.and_eq_false_iff, decide_eq_true_eq, decide_eq_false_iff_not, UInt8.le_iff_toNat_le,
      UInt8.reduceToNat] at h ⊢
    exact .inl (.inr (by omega))
  | [a, b, d], [] =>
    simp only [isChar, isUnfinished, append_nil, Bool.and_eq_true, Bool.and_eq_false_iff,
      decide_eq_true_eq, decide_eq_false_iff_not, UInt8.le_iff_toNat_le, UInt8.reduceToNat] at h ⊢
    exact .inl (.inl (.inr (by omega)))
  | [a], _ :: _ :: _ :: _ | [a, b], _ :: _ :: _ | [a, b, d], _ :: _
  | _ :: _ :: _ :: _ :: _, _ => simp [isUnfinished] at h

theorem isUnfinished_of_append {v : List UInt8} (hne : u ≠ []) (h : isUnfinished (u ++ v) = true) :
    isUnfinished u = true := by
  match u, v with
  | _, [] => rwa [append_nil] at h
  | [a], [_] | [a], [_, _] =>
    simp only [isUnfinished, cons_append, nil_append, Bool.and_eq_true,
      decide_eq_true_eq, UInt8.le_iff_toNat_le, UInt8.reduceToNat] at h ⊢
    omega
  | [a, b], [_] =>
    simp only [isUnfinished, cons_append, nil_append, Bool.and_eq_true,
      decide_eq_true_eq, UInt8.le_iff_toNat_le, UInt8.reduceToNat] at h ⊢
    exact ⟨by omega, h.1.2⟩
  | [a], _ :: _ :: _ :: _ | [a, b], _ :: _ :: _ | [a, b, d], _ :: _
  | _ :: _ :: _ :: _ :: _, _ :: _ => simp [isUnfinished] at h

variable {bytes : List UInt8}

theorem decodeChar_eq_some_iff {c : Char} :
    decodeChar bytes = some c ↔ String.utf8EncodeChar c <+: bytes := by
  constructor
  · intro h
    obtain ⟨l, hl⟩ := ByteArray.exists_of_utf8DecodeChar?_eq_some h
    have hlist : bytes.take 4 = String.utf8EncodeChar c ++ l.data.toList := by
      have hdata := congrArg (·.data.toList) hl
      simpa using hdata
    exact (prefix_append _ _).trans (hlist ▸ take_prefix 4 bytes)
  · rintro ⟨rest, rfl⟩
    exact decodeChar_utf8EncodeChar c rest

/-! ## What stands at the front -/

/-- The character that stands at the front, and how many bytes it takes. -/
def headOf (bytes : List UInt8) : Char × Nat :=
  match decodeChar bytes with
  | some c => (c, c.utf8Size)
  | none => ('\uFFFD', invalidLen bytes)

theorem headOf_of_none (h : decodeChar bytes = none) :
    headOf bytes = ('\uFFFD', invalidLen bytes) := by
  rw [headOf, h]

theorem headOf_of_char (h : isChar u = true) (rest : List UInt8) :
    ∃ c, headOf (u ++ rest) = (c, u.length) := by
  obtain ⟨c, rfl⟩ := isChar_iff.1 h
  refine ⟨c, ?_⟩
  rw [headOf, decodeChar_utf8EncodeChar, String.length_utf8EncodeChar]

/-- Where a character is decoded, it stands. -/
theorem exists_of_decodeChar {c : Char} (h : decodeChar bytes = some c) :
    ∃ u rest, bytes = u ++ rest ∧ isChar u = true := by
  obtain ⟨rest, hrest⟩ := decodeChar_eq_some_iff.1 h
  exact ⟨_, rest, hrest.symm, isChar_utf8EncodeChar c⟩

theorem invalidLen_pos (bytes : List UInt8) : 0 < invalidLen bytes := by
  rw [invalidLen.eq_def]
  split
  · split_ifs
    · decide
    · split
      · split_ifs <;> decide
      · decide
    · decide
  · decide

theorem headOf_pos (bytes : List UInt8) : 0 < (headOf bytes).2 := by
  rw [headOf]
  split
  · exact Char.utf8Size_pos _
  · exact invalidLen_pos bytes

/-- **Lossy decoding goes character by character.** -/
theorem lossy_eq_cons (h : bytes ≠ []) :
    fromUtf8Lossy bytes = (headOf bytes).1 :: fromUtf8Lossy (bytes.drop (headOf bytes).2) := by
  have hpos := headOf_pos bytes
  obtain ⟨b, rest, rfl⟩ := exists_cons_of_ne_nil h
  have hdrop : (b :: rest).drop (headOf (b :: rest)).2 =
      rest.drop ((headOf (b :: rest)).2 - 1) := by
    obtain ⟨n, hn⟩ := Nat.exists_eq_succ_of_ne_zero (Nat.ne_of_gt hpos)
    rw [hn]
    rfl
  rw [hdrop, fromUtf8Lossy, fromUtf8Lossy, ← lossyFrom_drop, lossyFrom]
  cases hdecode : decodeChar (b :: rest) <;> simp only [headOf, hdecode]

/-- **A head that is finished stands, whatever follows.** -/
theorem headOf_append (hne : bytes ≠ []) (h : isUnfinished bytes = false) (more : List UInt8) :
    headOf (bytes ++ more) = headOf bytes := by
  cases hdecode : decodeChar bytes with
  | some c =>
    have hmore : decodeChar (bytes ++ more) = some c := decodeChar_eq_some_iff.2
      ((decodeChar_eq_some_iff.1 hdecode).trans (prefix_append _ _))
    rw [headOf, headOf, hmore, hdecode]
  | none =>
    have hmore : decodeChar (bytes ++ more) = none := by
      cases hcon : decodeChar (bytes ++ more) with
      | none => rfl
      | some c =>
        -- the character would begin with all the bytes
        rcases prefix_or_prefix_of_prefix (decodeChar_eq_some_iff.1 hcon)
          (prefix_append bytes more) with hshort | ⟨rest, hrest⟩
        · rw [decodeChar_eq_some_iff.2 hshort] at hdecode
          cases hdecode
        rcases isUnfinished_of_prefix hne (hrest ▸ isChar_utf8EncodeChar c) with hcut | rfl
        · rw [h] at hcut
          cases hcut
        · have hall : decodeChar bytes = some c :=
            decodeChar_eq_some_iff.2 ⟨[], by rw [← hrest, append_nil, append_nil]⟩
          rw [hall] at hdecode
          cases hdecode
    rw [headOf_of_none hmore, headOf_of_none hdecode]
    congr 1
    match bytes with
    | [a] =>
      cases more with
      | nil => rfl
      | cons b more =>
        simp only [isUnfinished, Bool.and_eq_false_iff, decide_eq_false_iff_not,
          UInt8.le_iff_toNat_le, UInt8.reduceToNat] at h
        simp only [invalidLen, cons_append, nil_append, Bool.and_eq_true,
          decide_eq_true_eq, UInt8.le_iff_toNat_le, UInt8.reduceToNat]
        rw [if_neg (by omega), if_neg (by omega)]
    | [a, b] =>
      simp only [isUnfinished, Bool.and_eq_false_iff, decide_eq_false_iff_not,
        UInt8.le_iff_toNat_le, UInt8.reduceToNat] at h
      simp only [invalidLen, cons_append, nil_append, Bool.and_eq_true,
        decide_eq_true_eq, UInt8.le_iff_toNat_le, UInt8.reduceToNat]
      cases hsecond : isSecond a b with
      | false => simp
      | true =>
        have hout := h.resolve_right (by simp [hsecond])
        rw [if_neg (by omega), if_neg (by omega), if_neg (by omega), if_neg (by omega)]
    | a :: b :: d :: bytes => rfl

/-- An unfinished character is one `U+FFFD`. -/
theorem headOf_of_unfinished (h : isUnfinished u = true) : headOf u = ('\uFFFD', u.length) := by
  have hdecode : decodeChar u = none := by
    cases hdecode : decodeChar u with
    | none => rfl
    | some c =>
      obtain ⟨v, rest, rfl, hchar⟩ := exists_of_decodeChar hdecode
      rw [not_isChar_of_unfinished h] at hchar
      cases hchar
  rw [headOf_of_none hdecode]
  congr 1
  match u with
  | [a] => rfl
  | [a, b] =>
    simp only [isUnfinished, Bool.and_eq_true, decide_eq_true_eq, UInt8.le_iff_toNat_le,
      UInt8.reduceToNat] at h
    simp only [invalidLen, Bool.and_eq_true, decide_eq_true_eq, UInt8.le_iff_toNat_le,
      UInt8.reduceToNat, h.2, and_true]
    split_ifs with h1 h2
    · rfl
    · rfl
    · omega
  | [a, b, d] =>
    simp only [isUnfinished, isTail, Bool.and_eq_true, decide_eq_true_eq, UInt8.le_iff_toNat_le,
      UInt8.reduceToNat] at h
    simp only [invalidLen, Bool.and_eq_true, decide_eq_true_eq, UInt8.le_iff_toNat_le,
      UInt8.reduceToNat, h.1.2, and_true]
    rw [if_neg (by omega), if_pos (by omega), if_pos (by omega)]
    rfl

/-- Whether a byte goes on with an unfinished character. -/
def continues (u : List UInt8) (b : UInt8) : Bool := isUnfinished (u ++ [b]) || isChar (u ++ [b])

/-- An unfinished character that what follows does not go on with is one `U+FFFD`. -/
theorem headOf_of_broken (h : isUnfinished u = true) (hbroken : continues u b = false)
    (rest : List UInt8) : headOf (u ++ b :: rest) = ('\uFFFD', u.length) := by
  obtain ⟨hcut, hchar⟩ := Bool.or_eq_false_iff.1 hbroken
  have hne : u ++ [b] ≠ [] := by simp
  have hsplit : u ++ b :: rest = u ++ [b] ++ rest := by simp
  rw [hsplit, headOf_append hne hcut]
  have hdecode : decodeChar (u ++ [b]) = none := by
    cases hdecode : decodeChar (u ++ [b]) with
    | none => rfl
    | some c =>
      obtain ⟨v, rest', hv, hvchar⟩ := exists_of_decodeChar hdecode
      rcases eq_nil_or_concat rest' with rfl | ⟨init, x, rfl⟩
      · rw [append_nil] at hv
        rw [hv, hvchar] at hchar
        cases hchar
      · rw [concat_eq_append, ← append_assoc] at hv
        obtain ⟨rfl, -⟩ := append_inj' hv rfl
        rw [not_isChar_of_unfinished h] at hvchar
        cases hvchar
  rw [headOf_of_none hdecode]
  congr 1
  match u with
  | [a] =>
    simp only [isUnfinished, cons_append, nil_append, Bool.and_eq_true,
      Bool.and_eq_false_iff, decide_eq_true_eq, decide_eq_false_iff_not, UInt8.le_iff_toNat_le,
      UInt8.reduceToNat] at h hcut
    simp only [invalidLen, cons_append, nil_append, Bool.and_eq_true, decide_eq_true_eq,
      UInt8.le_iff_toNat_le, UInt8.reduceToNat, length_singleton]
    rcases hcut with hout | hsecond
    · rw [if_neg (by omega), if_neg (by omega)]
    · simp [hsecond]
  | [a, d] =>
    simp only [isUnfinished, isTail, cons_append, nil_append, Bool.and_eq_true,
      Bool.and_eq_false_iff, decide_eq_true_eq, decide_eq_false_iff_not, UInt8.le_iff_toNat_le,
      UInt8.reduceToNat] at h hcut
    simp only [invalidLen, cons_append, nil_append, Bool.and_eq_true, decide_eq_true_eq,
      UInt8.le_iff_toNat_le, UInt8.reduceToNat, h.2, and_true]
    split_ifs with h1 h2 h3
    · rfl
    · rcases hcut with (hout | hsecond) | hout
      · omega
      · rw [h.2] at hsecond
        cases hsecond
      · omega
    · rfl
    · omega
  | [a, d, e] =>
    simp only [isUnfinished, isTail, Bool.and_eq_true, decide_eq_true_eq, UInt8.le_iff_toNat_le,
      UInt8.reduceToNat] at h
    simp only [invalidLen, cons_append, nil_append, Bool.and_eq_true, decide_eq_true_eq,
      UInt8.le_iff_toNat_le, UInt8.reduceToNat, h.1.2, and_true]
    rw [if_neg (by omega), if_pos (by omega), if_pos (by omega)]
    rfl

/-- An unfinished character is not taken apart. -/
theorem length_le_headOf (h : isUnfinished u = true) (rest : List UInt8) :
    u.length ≤ (headOf (u ++ rest)).2 := by
  cases hdecode : decodeChar (u ++ rest) with
  | some c =>
    have hpre := decodeChar_eq_some_iff.1 hdecode
    rw [headOf, hdecode]
    dsimp only
    rw [← String.length_utf8EncodeChar]
    rcases prefix_or_prefix_of_prefix hpre (prefix_append u rest) with ⟨v, rfl⟩ | hlong
    · have hno := not_isChar_of_unfinished h
      rw [isChar_utf8EncodeChar] at hno
      cases hno
    · exact hlong.length_le
  | none =>
    rw [headOf_of_none hdecode]
    match u with
    | [a] => exact invalidLen_pos _
    | [a, b] =>
      simp only [isUnfinished, Bool.and_eq_true, decide_eq_true_eq, UInt8.le_iff_toNat_le,
        UInt8.reduceToNat] at h
      simp only [invalidLen, cons_append, nil_append, Bool.and_eq_true,
        decide_eq_true_eq, UInt8.le_iff_toNat_le, UInt8.reduceToNat, h.2, and_true]
      split_ifs with h1 h2
      · exact Nat.le_refl 2
      · cases rest with
        | nil => exact Nat.le_refl 2
        | cons d rest =>
          dsimp only
          split_ifs
          · exact Nat.le_succ 2
          · exact Nat.le_refl 2
      · omega
    | [a, b, d] =>
      simp only [isUnfinished, isTail, Bool.and_eq_true, decide_eq_true_eq,
        UInt8.le_iff_toNat_le, UInt8.reduceToNat] at h
      simp only [invalidLen, cons_append, nil_append, Bool.and_eq_true,
        decide_eq_true_eq, UInt8.le_iff_toNat_le, UInt8.reduceToNat, h.1.2, and_true]
      rw [if_neg (by omega), if_pos (by omega), if_pos (by omega)]
      exact Nat.le_refl 3

/-- One that what follows goes on with takes up more. -/
theorem lt_headOf_of_continues (hgoes : continues u b = true) (rest : List UInt8) :
    u.length < (headOf (u ++ b :: rest)).2 := by
  have hsplit : u ++ b :: rest = u ++ [b] ++ rest := by simp
  rw [hsplit]
  rcases Bool.or_eq_true_iff.1 hgoes with hcut | hchar
  · have hle := length_le_headOf hcut rest
    rwa [length_append, length_singleton] at hle
  · obtain ⟨c, hc⟩ := headOf_of_char hchar rest
    rw [hc, length_append, length_singleton]
    exact Nat.lt_succ_self _

theorem headOf_le (h : bytes ≠ []) : (headOf bytes).2 ≤ bytes.length := by
  rw [headOf]
  split
  next c hdecode =>
    rw [← String.length_utf8EncodeChar]
    exact (decodeChar_eq_some_iff.1 hdecode).length_le
  · match bytes with
    | [a] => exact Nat.le_refl 1
    | [a, b] =>
      simp only [invalidLen]
      split_ifs <;> simp
    | a :: b :: d :: bytes =>
      simp only [invalidLen]
      split_ifs <;> simp

/-! ## Bytes inside of a character -/

/-- Behind its first byte, what stands at the front has tails. -/
theorem isTail_of_mem_head {x : UInt8} (h : x ∈ (bytes.take (headOf bytes).2).tail) :
    isTail x = true := by
  have hsecond : ∀ {a b : UInt8}, isSecond a b = true → isTail b = true := fun hab =>
    isTail_iff.2 (isSecond_iff.1 hab).1
  cases hdecode : decodeChar bytes with
  | some c =>
    obtain ⟨rest, hrest⟩ := decodeChar_eq_some_iff.1 hdecode
    rw [headOf, hdecode] at h
    dsimp only at h
    rw [← String.length_utf8EncodeChar, ← hrest, take_left] at h
    have hchar := isChar_utf8EncodeChar c
    revert hchar h
    match String.utf8EncodeChar c with
    | [] => simp
    | [a] => simp
    | [a, b] => simp +contextual [isChar]
    | [a, b, d] =>
      simp only [isChar, Bool.and_eq_true, tail_cons, mem_cons, not_mem_nil,
        or_false]
      rintro (rfl | rfl) ⟨⟨-, hab⟩, hd⟩
      · exact hsecond hab
      · exact hd
    | [a, b, d, e] =>
      simp only [isChar, Bool.and_eq_true, tail_cons, mem_cons, not_mem_nil,
        or_false]
      rintro (rfl | rfl | rfl) ⟨⟨⟨-, hab⟩, hd⟩, he⟩
      · exact hsecond hab
      · exact hd
      · exact he
    | _ :: _ :: _ :: _ :: _ :: _ => simp [isChar]
  | none =>
    rw [headOf_of_none hdecode] at h
    match bytes with
    | [] => simp at h
    | [a] => simp [invalidLen] at h
    | a :: b :: rest =>
      cases hab : isSecond a b with
      | false => simp [invalidLen, hab] at h
      | true =>
        simp only [invalidLen, hab, Bool.and_true] at h
        split_ifs at h
        · simp only [take_succ_cons, take_zero, tail_cons, mem_singleton] at h
          exact h ▸ hsecond hab
        · match rest with
          | [] =>
            simp only [take_succ_cons, take_zero, tail_cons, mem_singleton] at h
            exact h ▸ hsecond hab
          | d :: rest =>
            dsimp only at h
            split_ifs at h with hd
            · simp only [take_succ_cons, take_zero, tail_cons, mem_cons,
                not_mem_nil, or_false] at h
              rcases h with rfl | rfl
              · exact hsecond hab
              · exact hd
            · simp only [take_succ_cons, take_zero, tail_cons,
                mem_singleton] at h
              exact h ▸ hsecond hab
        · simp at h

/-- A tail by itself is one `U+FFFD`. -/
theorem headOf_tail {x : UInt8} (h : isTail x = true) (rest : List UInt8) :
    headOf (x :: rest) = ('\uFFFD', 1) := by
  have hx := isTail_iff.1 h
  have hcut : isUnfinished [x] = false := by
    simp only [isUnfinished, Bool.and_eq_false_iff, decide_eq_false_iff_not,
      UInt8.le_iff_toNat_le, UInt8.reduceToNat]
    omega
  have hchar : isChar [x] = false := by
    simp only [isChar, decide_eq_false_iff_not, UInt8.le_iff_toNat_le, UInt8.reduceToNat]
    omega
  rw [show x :: rest = [x] ++ rest from rfl, headOf_append (by simp) hcut, headOf_of_none]
  · rfl
  cases hdecode : decodeChar [x] with
  | none => rfl
  | some c =>
    obtain ⟨v, rest', hv, hvchar⟩ := exists_of_decodeChar hdecode
    rcases append_eq_singleton_iff.1 hv.symm with ⟨rfl, -⟩ | ⟨rfl, -⟩
    · cases hvchar
    · rw [hchar] at hvchar
      cases hvchar

theorem length_lossy_tails {t : List UInt8} (h : ∀ x ∈ t, isTail x = true) (rest : List UInt8) :
    (fromUtf8Lossy (t ++ rest)).length = t.length + (fromUtf8Lossy rest).length := by
  induction t with
  | nil => simp
  | cons x t ih =>
    rw [cons_append, lossy_eq_cons (cons_ne_nil _ _),
      headOf_tail (h x mem_cons_self), drop_one, tail_cons, length_cons,
      ih fun y hy => h y (mem_cons_of_mem _ hy), length_cons]
    omega

/-! ## The text so far -/

/-- The text of the bytes up to an unfinished character at their end, and that character; the first
`skip` bytes have been read. -/
def splitFrom : Nat → List UInt8 → Text × List UInt8
  | _, [] => ([], [])
  | skip + 1, _ :: bytes => splitFrom skip bytes
  | 0, b :: bytes =>
    if isUnfinished (b :: bytes) then ([], b :: bytes)
    else
      let front := headOf (b :: bytes)
      let (text, rest) := splitFrom (front.2 - 1) bytes
      (front.1 :: text, rest)

/-- The text that no further bytes can change. -/
def complete (bytes : List UInt8) : Text := (splitFrom 0 bytes).1

/-- The unfinished character at the end. -/
def pending (bytes : List UInt8) : List UInt8 := (splitFrom 0 bytes).2

theorem splitFrom_drop (skip : Nat) (bytes : List UInt8) :
    splitFrom skip bytes = splitFrom 0 (bytes.drop skip) := by
  induction bytes generalizing skip with
  | nil => cases skip <;> rfl
  | cons b bytes ih =>
    cases skip with
    | zero => rfl
    | succ skip => exact ih skip

theorem splitFrom_of_unfinished (h : isUnfinished u = true) : splitFrom 0 u = ([], u) := by
  cases u with
  | nil => cases h
  | cons b u => rw [splitFrom, if_pos h]

theorem splitFrom_cons (hne : bytes ≠ []) (h : isUnfinished bytes = false) :
    splitFrom 0 bytes = ((headOf bytes).1 :: complete (bytes.drop (headOf bytes).2),
      pending (bytes.drop (headOf bytes).2)) := by
  have hpos := headOf_pos bytes
  obtain ⟨b, rest, rfl⟩ := exists_cons_of_ne_nil hne
  have hdrop : (b :: rest).drop (headOf (b :: rest)).2 =
      rest.drop ((headOf (b :: rest)).2 - 1) := by
    obtain ⟨n, hn⟩ := Nat.exists_eq_succ_of_ne_zero (Nat.ne_of_gt hpos)
    rw [hn]
    rfl
  rw [splitFrom, if_neg (by simp [h])]
  dsimp only
  rw [splitFrom_drop, ← hdrop]
  rfl

/-- Bytes are none, or an unfinished character, or what is finished at the front and the rest. -/
theorem bytes_induction {P : List UInt8 → Prop} (nil : P [])
    (unfinished : ∀ u, isUnfinished u = true → P u)
    (cons : ∀ bytes, bytes ≠ [] → isUnfinished bytes = false →
      P (bytes.drop (headOf bytes).2) → P bytes) (bytes : List UInt8) : P bytes := by
  induction hlength : bytes.length using Nat.strong_induction_on generalizing bytes with
  | _ n ih =>
    by_cases hne : bytes = []
    · exact hne ▸ nil
    cases hcut : isUnfinished bytes with
    | true => exact unfinished bytes hcut
    | false =>
      refine cons bytes hne hcut (ih _ ?_ _ rfl)
      have hpos := headOf_pos bytes
      have hlen := length_pos_iff.2 hne
      rw [length_drop]
      omega

/-- What is left over is nothing or unfinished. -/
theorem pending_unfinished (h : pending bytes ≠ []) : isUnfinished (pending bytes) = true := by
  induction bytes using bytes_induction with
  | nil => exact absurd rfl h
  | unfinished u hu => rwa [pending, splitFrom_of_unfinished hu]
  | cons bytes hne hcut ih =>
    rw [pending, splitFrom_cons hne hcut] at h ⊢
    exact ih h

/-- **What follows goes on from the end of the text so far.** -/
theorem lossy_append (a b : List UInt8) :
    fromUtf8Lossy (a ++ b) = complete a ++ fromUtf8Lossy (pending a ++ b) := by
  induction a using bytes_induction with
  | nil => rfl
  | unfinished u hu => rw [complete, pending, splitFrom_of_unfinished hu, nil_append]
  | cons bytes hne hcut ih =>
    rw [complete, pending, splitFrom_cons hne hcut, lossy_eq_cons (by simp [hne]),
      headOf_append hne hcut, drop_append_of_le_length (headOf_le hne), ih]
    rfl

/-- So does the text. -/
theorem splitFrom_append (a b : List UInt8) :
    splitFrom 0 (a ++ b) = (complete a ++ complete (pending a ++ b), pending (pending a ++ b)) := by
  induction a using bytes_induction with
  | nil => rfl
  | unfinished u hu =>
    rw [complete, pending, splitFrom_of_unfinished hu, nil_append]
    rfl
  | cons bytes hne hcut ih =>
    cases hall : isUnfinished (bytes ++ b) with
    | true =>
      rw [isUnfinished_of_append hne hall] at hcut
      cases hcut
    | false =>
      rw [complete, pending, splitFrom_cons hne hcut, splitFrom_cons (by simp [hne]) hall,
        headOf_append hne hcut, drop_append_of_le_length (headOf_le hne), complete, pending,
        ih]
      rfl

theorem complete_append (a b : List UInt8) :
    complete (a ++ b) = complete a ++ complete (pending a ++ b) :=
  congrArg Prod.fst (splitFrom_append a b)

/-- **Lossy decoding makes a `U+FFFD` of what is left over.** -/
theorem lossy_eq (bytes : List UInt8) :
    fromUtf8Lossy bytes = complete bytes ++ if pending bytes = [] then [] else ['\uFFFD'] := by
  have happend := lossy_append bytes []
  rw [append_nil, append_nil] at happend
  rw [happend]
  congr 1
  split_ifs with h
  · rw [h]
    rfl
  · rw [lossy_eq_cons h, headOf_of_unfinished (pending_unfinished h), drop_length]
    rfl

/-! ## Pieces -/

/-- `b` goes on with a character that `a` ends inside of. -/
def Joined (a b : List UInt8) : Prop :=
  pending a ≠ [] ∧ ∃ x rest, b = x :: rest ∧ continues (pending a) x = true

/-- Bytes that are joined have fewer characters together. -/
theorem Joined.length_lt {a b : List UInt8} (h : Joined a b) :
    (fromUtf8Lossy (a ++ b)).length < (fromUtf8Lossy a ++ fromUtf8Lossy b).length := by
  obtain ⟨hne, x, rest, rfl, hgoes⟩ := h
  have hlt := lt_headOf_of_continues hgoes rest
  have hall : pending a ++ x :: rest ≠ [] := by simp
  have htails : ∀ y ∈ ((pending a ++ x :: rest).take (headOf (pending a ++ x :: rest)).2).tail,
      isTail y = true := fun y => isTail_of_mem_head
  have hle := headOf_le hall
  rw [lossy_append, lossy_eq a, if_neg hne, lossy_eq_cons hall]
  obtain ⟨n, hn⟩ := Nat.exists_eq_add_of_lt hlt
  rw [hn] at htails hle ⊢
  rw [Nat.add_assoc] at htails hle ⊢
  rw [take_length_add_append] at htails
  rw [drop_length_add_append]
  -- what the joined character takes of `b` is all tails
  have hmine : ∀ y ∈ (x :: rest).take (n + 1), isTail y = true := by
    intro y hy
    obtain ⟨p, ps, hp⟩ := exists_cons_of_ne_nil hne
    refine htails y ?_
    rw [hp]
    exact mem_append_right ps hy
  have hlength := length_lossy_tails hmine ((x :: rest).drop (n + 1))
  rw [take_append_drop, length_take] at hlength
  simp only [length_append, length_cons, length_nil] at hle hlength ⊢
  omega

/-- Bytes that are not joined are read as if each stood alone. -/
theorem lossy_append_of_not_joined {a b : List UInt8} (h : ¬ Joined a b) :
    fromUtf8Lossy (a ++ b) = fromUtf8Lossy a ++ fromUtf8Lossy b := by
  rw [lossy_append, lossy_eq a, append_assoc]
  congr 1
  split_ifs with hne
  · rw [hne]
    rfl
  have hcut := pending_unfinished hne
  cases b with
  | nil =>
    rw [append_nil, lossy_eq_cons hne, headOf_of_unfinished hcut, drop_length]
    rfl
  | cons x rest =>
    have hbroken : continues (pending a) x = false := by
      cases hgoes : continues (pending a) x with
      | false => rfl
      | true => exact absurd ⟨hne, x, rest, rfl, hgoes⟩ h
    rw [lossy_eq_cons (by simp), headOf_of_broken hcut hbroken, drop_left]
    rfl

theorem length_lossy_append_le (a b : List UInt8) :
    (fromUtf8Lossy (a ++ b)).length ≤ (fromUtf8Lossy a).length + (fromUtf8Lossy b).length := by
  by_cases h : Joined a b
  · exact Nat.le_of_lt (by simpa using h.length_lt)
  · rw [lossy_append_of_not_joined h, length_append]

/-- No piece is joined to what follows it. -/
def Separate (pieces : List (List UInt8)) : Prop :=
  ∀ before p after, pieces = before ++ p :: after → ¬ Joined p after.flatten

theorem separate_cons_iff {p : List UInt8} {ps : List (List UInt8)} :
    Separate (p :: ps) ↔ ¬ Joined p ps.flatten ∧ Separate ps := by
  constructor
  · intro h
    refine ⟨h [] p ps rfl, fun before q after hps => h (p :: before) q after ?_⟩
    rw [hps, cons_append]
  rintro ⟨hhead, htail⟩ before q after heq
  cases before with
  | nil =>
    obtain ⟨rfl, rfl⟩ := cons.inj heq
    exact hhead
  | cons q' before => exact htail before q after (cons.inj heq).2

theorem length_lossy_flatten_le (ps : List (List UInt8)) :
    (fromUtf8Lossy ps.flatten).length ≤ (ps.map fromUtf8Lossy).flatten.length := by
  induction ps with
  | nil => exact Nat.le_refl _
  | cons p ps ih =>
    rw [flatten_cons, map_cons, flatten_cons, length_append]
    exact (length_lossy_append_le p ps.flatten).trans (Nat.add_le_add_left ih _)

/-- **Pieces decoded one by one are the text of all the bytes if and only if none of them ends
inside of a character that what follows goes on with.** -/
theorem lossy_flatten_iff {ps : List (List UInt8)} :
    (ps.map fromUtf8Lossy).flatten = fromUtf8Lossy ps.flatten ↔ Separate ps := by
  induction ps with
  | nil => exact ⟨fun _ before p after h => by simp at h, fun _ => rfl⟩
  | cons p ps ih =>
    rw [separate_cons_iff, ← ih, flatten_cons, map_cons, flatten_cons]
    constructor
    · intro h
      -- a character less cannot be made up for by the pieces that follow
      have hlength := congrArg length h
      have htail := length_lossy_flatten_le ps
      have hjoined : ¬ Joined p ps.flatten := by
        intro hjoined
        have hlt := hjoined.length_lt
        rw [length_append] at hlength hlt
        omega
      rw [lossy_append_of_not_joined hjoined] at h
      exact ⟨hjoined, append_cancel_left h⟩
    · rintro ⟨hjoined, htail⟩
      rw [lossy_append_of_not_joined hjoined, htail]

end Gen2
