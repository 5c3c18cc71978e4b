import Gen2.Types.JsonText

/-!
# Reading the text of JSON

A reader of what `Json.write` writes, with a way to read numbers left open, as `Json.write` leaves
one open to write them.

* `readChars` reads what stands between the quotes of a string, `readValue` a value.
* `readValue_write`: **what is written is read**, whatever comes behind it.
* `Json.write_injective`: so that the text of a value says which value it is.

The calls of the readers are nested no deeper than the text is long, which is what `fuel` counts.
-/

namespace Gen2

open List Json

/-! ## Strings -/

/-- The value of a digit. -/
def hexValue (c : Char) : Nat :=
  if '0' ≤ c ∧ c ≤ '9' then c.toNat - '0'.toNat else c.toNat - 'a'.toNat + 10

/-- What an escape of one letter stands for. -/
def unescape (c : Char) : Option Char :=
  if c = '"' ∨ c = '\\' then some c
  else if c = 'n' then some '\n'
  else if c = 'r' then some '\r'
  else if c = 't' then some '\t'
  else if c = 'b' then some '\x08'
  else if c = 'f' then some '\x0c'
  else none

/-- What stands between the quotes of a string, and what is behind them. -/
def readChars : Text → Option (Text × Text)
  | [] => none
  | '"' :: rest => some ([], rest)
  | '\\' :: 'u' :: '0' :: '0' :: a :: b :: rest =>
    (readChars rest).map fun (s, rest) => (Char.ofNat (hexValue a * 16 + hexValue b) :: s, rest)
  | '\\' :: c :: rest =>
    (unescape c).bind fun c => (readChars rest).map fun (s, rest) => (c :: s, rest)
  | c :: rest => (readChars rest).map fun (s, rest) => (c :: s, rest)

theorem readChars_escapeChar (c : Char) (t : Text) :
    readChars (escapeChar c ++ t) = (readChars t).map fun (s, rest) => (c :: s, rest) := by
  have hdigit : ∀ n < 16, hexValue (Nat.digitChar n) = n := by decide
  unfold escapeChar
  split_ifs with hquote hescape hn hr ht hb hf hcontrol
  · subst hquote; rfl
  · subst hescape; rfl
  · subst hn; rfl
  · subst hr; rfl
  · subst ht; rfl
  · subst hb; rfl
  · subst hf; rfl
  · have hhigh := hdigit (c.toNat / 16) (by omega)
    have hlow := hdigit (c.toNat % 16) (by omega)
    have hsum : c.toNat / 16 * 16 + c.toNat % 16 = c.toNat := by omega
    show (readChars t).map _ = _
    rw [hhigh, hlow, hsum, Char.ofNat_toNat]
  · rw [singleton_append, readChars.eq_def]
    split
    next heq => cases heq
    next heq => exact absurd (cons.inj heq).1 hquote
    next heq => exact absurd (cons.inj heq).1 hescape
    next heq => exact absurd (cons.inj heq).1 hescape
    next heq =>
      obtain ⟨rfl, rfl⟩ := cons.inj heq
      rfl

/-- **What is written between the quotes is read.** -/
theorem readChars_write (s r : Text) :
    readChars (s.flatMap escapeChar ++ '"' :: r) = some (s, r) := by
  induction s with
  | nil => rfl
  | cons c s ih => rw [flatMap_cons, append_assoc, readChars_escapeChar, ih]; rfl

/-! ## Values -/

section
variable (readNumber : Text → Option JsonNumber)

/-- A number, or one of the three names. -/
def readWord (word : Text) : Option Json :=
  if word = "null".toList then some .null
  else if word = "true".toList then some (.bool true)
  else if word = "false".toList then some (.bool false)
  else (readNumber word).map .number

mutual
/-- A value, and what is behind it. -/
def readValue : Nat → Text → Option (Json × Text)
  | 0, _ => none
  | _ + 1, '"' :: t => (readChars t).map fun (s, rest) => (.string (String.ofList s), rest)
  | _ + 1, '[' :: ']' :: rest => some (.array [], rest)
  | fuel + 1, '[' :: t => (readItems fuel t).map fun (items, rest) => (.array items, rest)
  | _ + 1, '{' :: '}' :: rest => some (.object [], rest)
  | fuel + 1, '{' :: t => (readFields fuel t).map fun (fields, rest) => (.object fields, rest)
  | _ + 1, t =>
    (readWord readNumber (t.takeWhile isBareChar)).map fun v => (v, t.dropWhile isBareChar)

/-- The items of an array, as far as its closing bracket. -/
def readItems : Nat → Text → Option (List Json × Text)
  | 0, _ => none
  | fuel + 1, t => do
    let (v, t) ← readValue fuel t
    match t with
    | ']' :: rest => some ([v], rest)
    | ',' :: t => (readItems fuel t).map fun (items, rest) => (v :: items, rest)
    | _ => none

/-- The fields of an object, as far as its closing brace. -/
def readFields : Nat → Text → Option (List (String × Json) × Text)
  | fuel + 1, '"' :: t => do
    let (name, t) ← readChars t
    match t with
    | ':' :: t =>
      let (v, t) ← readValue fuel t
      match t with
      | '}' :: rest => some ([(String.ofList name, v)], rest)
      | ',' :: t =>
        (readFields fuel t).map fun (fields, rest) => ((String.ofList name, v) :: fields, rest)
      | _ => none
    | _ => none
  | _, _ => none
end

/-- A whole text. -/
def Json.read (t : Text) : Option Json :=
  match readValue readNumber (t.length + 1) t with
  | some (v, []) => some v
  | _ => none

end

/-- A way to write numbers, and one to read them. -/
structure NumberText (number : JsonNumber → Text) (readNumber : Text → Option JsonNumber)
    : Prop where
  bare : ∀ n, Bare (number n)
  notWord : ∀ n, number n ∉ ["null".toList, "true".toList, "false".toList]
  read : ∀ n, readNumber (number n) = some n

/-- What comes behind a number or a name: nothing that could belong to it. -/
def Ends (r : Text) : Prop := ∀ c ∈ r.head?, isBareChar c = false

section
variable {number : JsonNumber → Text} {readNumber : Text → Option JsonNumber}

theorem takeWhile_bare {t r : Text} (ht : Bare t) (hr : Ends r) :
    (t ++ r).takeWhile isBareChar = t ∧ (t ++ r).dropWhile isBareChar = r := by
  rw [takeWhile_append_of_pos ht.2, dropWhile_append_of_pos ht.2]
  cases r with
  | nil => simp
  | cons c r =>
    have hc : isBareChar c = false := hr c rfl
    rw [takeWhile_cons_of_neg (by simp [hc]), dropWhile_cons_of_neg (by simp [hc]),
      append_nil]
    exact ⟨rfl, rfl⟩

/-- A bare text is read as a word. -/
theorem readValue_bare {t r : Text} (ht : Bare t) (hr : Ends r) (fuel : Nat) :
    readValue readNumber (fuel + 1) (t ++ r) = (readWord readNumber t).map fun v => (v, r) := by
  obtain ⟨hword, hrest⟩ := takeWhile_bare ht hr
  cases t with
  | nil => exact absurd rfl ht.1
  | cons c t =>
    have hc := ht.2 c mem_cons_self
    have hplain : c ≠ '"' ∧ c ≠ '[' ∧ c ≠ '{' := by
      refine ⟨?_, ?_, ?_⟩ <;> rintro rfl <;> revert hc <;> decide
    rw [cons_append] at hword hrest ⊢
    rw [readValue.eq_7 _ _ _ (fun t h => hplain.1 (cons.inj h).1)
      (fun t h => hplain.2.1 (cons.inj h).1) (fun t h => hplain.2.1 (cons.inj h).1)
      (fun t h => hplain.2.2 (cons.inj h).1) (fun t h => hplain.2.2 (cons.inj h).1),
      hword, hrest]

theorem readWord_number (h : NumberText number readNumber) (n : JsonNumber) :
    readWord readNumber (number n) = some (.number n) := by
  obtain ⟨hnull, htrue, hfalse⟩ : number n ≠ "null".toList ∧ number n ≠ "true".toList ∧
      number n ≠ "false".toList := by
    simpa only [mem_cons, not_mem_nil, or_false, not_or] using h.notWord n
  rw [readWord, if_neg hnull, if_neg htrue, if_neg hfalse, h.read, Option.map_some]

/-- What a value begins with. -/
theorem write_head (h : NumberText number readNumber) (v : Json) :
    ∃ c t, v.write number = c :: t ∧ c ≠ ']' ∧ c ≠ '}' := by
  have hbare : ∀ {t : Text}, Bare t → ∃ c t', t = c :: t' ∧ c ≠ ']' ∧ c ≠ '}' := by
    intro t ht
    cases t with
    | nil => exact absurd rfl ht.1
    | cons c t =>
      have hc := ht.2 c mem_cons_self
      refine ⟨c, t, rfl, ?_, ?_⟩ <;> rintro rfl <;> revert hc <;> decide
  cases v with
  | null => exact ⟨'n', _, rfl, by decide, by decide⟩
  | bool b => cases b <;> exact ⟨_, _, rfl, by decide, by decide⟩
  | number n => exact hbare (h.bare n)
  | string s => exact ⟨'"', _, rfl, by decide, by decide⟩
  | array items => exact ⟨'[', _, rfl, by decide, by decide⟩
  | object fields => exact ⟨'{', _, rfl, by decide, by decide⟩

theorem ends_cons {c : Char} (hc : isBareChar c = false) (r : Text) : Ends (c :: r) := by
  intro d hd
  obtain rfl := Option.some.inj hd
  exact hc

mutual
/-- **What is written is read**, and what is behind it is left. -/
theorem readValue_write (h : NumberText number readNumber) : ∀ (v : Json) (fuel : Nat) (r : Text),
    (v.write number).length ≤ fuel → Ends r →
      readValue readNumber fuel (v.write number ++ r) = some (v, r)
  | v, 0, r, hfuel, _ => by
    obtain ⟨c, t, hhead, -⟩ := write_head h v
    rw [hhead] at hfuel
    exact absurd hfuel (Nat.not_succ_le_zero _)
  | .null, fuel + 1, r, _, hr => by
    rw [show Json.null.write number = "null".toList from rfl,
      readValue_bare ⟨by decide, forall_mem_of_all rfl⟩ hr]
    rfl
  | .bool b, fuel + 1, r, _, hr => by
    cases b with
    | true =>
      rw [show (Json.bool true).write number = "true".toList from rfl,
        readValue_bare ⟨by decide, forall_mem_of_all rfl⟩ hr]
      rfl
    | false =>
      rw [show (Json.bool false).write number = "false".toList from rfl,
        readValue_bare ⟨by decide, forall_mem_of_all rfl⟩ hr]
      rfl
  | .number n, fuel + 1, r, _, hr => by
    rw [show (Json.number n).write number = number n from rfl, readValue_bare (h.bare n) hr,
      readWord_number h, Option.map_some]
  | .string s, fuel + 1, r, _, _ => by
    have htext : (Json.string s).write number ++ r =
        '"' :: (s.toList.flatMap escapeChar ++ '"' :: r) := by
      simp [Json.write, Json.layout, writeString]
    rw [htext, readValue, readChars_write]
    show some (Json.string (String.ofList s.toList), r) = _
    rw [String.ofList_toList]
  | .array [], fuel + 1, r, _, _ => rfl
  | .array (v :: items), fuel + 1, r, hfuel, _ => by
    have htext : (Json.array (v :: items)).write number ++ r =
        '[' :: (Json.layoutItems writeString writeString number (v :: items) ++ ']' :: r) := by
      simp [Json.write, Json.layout]
    have hshort : (Json.layoutItems writeString writeString number (v :: items)).length < fuel := by
      have hlen := congrArg length htext
      simp only [length_append, length_cons] at hlen
      omega
    obtain ⟨c, t, hhead, hclose, -⟩ := write_head h v
    have hne : ∀ rest, Json.layoutItems writeString writeString number (v :: items) ++ ']' :: r =
        ']' :: rest → False := by
      intro rest heq
      rw [Json.layoutItems, show v.layout writeString writeString number = c :: t from hhead] at heq
      exact hclose (cons.inj heq).1
    rw [htext, readValue.eq_4 _ _ _ hne, readItems_write h (v :: items) fuel r (by simp) hshort]
    rfl
  | .object [], fuel + 1, r, _, _ => rfl
  | .object ((name, v) :: fields), fuel + 1, r, hfuel, _ => by
    have htext : (Json.object ((name, v) :: fields)).write number ++ r =
        '{' :: (Json.layoutFields writeString writeString number ((name, v) :: fields) ++
          '}' :: r) := by
      simp [Json.write, Json.layout]
    have hshort : (Json.layoutFields writeString writeString number ((name, v) :: fields)).length <
        fuel := by
      have hlen := congrArg length htext
      simp only [length_append, length_cons] at hlen
      omega
    have hne : ∀ rest, Json.layoutFields writeString writeString number ((name, v) :: fields) ++
        '}' :: r = '}' :: rest → False := by
      intro rest heq
      rw [Json.layoutFields, writeString] at heq
      cases (cons.inj heq).1
    rw [htext, readValue.eq_6 _ _ _ hne,
      readFields_write h ((name, v) :: fields) fuel r (by simp) hshort]
    rfl

theorem readItems_write (h : NumberText number readNumber) : ∀ (items : List Json) (fuel : Nat)
    (r : Text), items ≠ [] →
    (layoutItems writeString writeString number items).length < fuel →
      readItems readNumber fuel (layoutItems writeString writeString number items ++
        ']' :: r) = some (items, r)
  | [], _, _, hne, _ => absurd rfl hne
  | [v], fuel + 1, r, _, hfuel => by
    have htext : layoutItems writeString writeString number [v] ++ ']' :: r =
        v.write number ++ ']' :: r := by
      simp [layoutItems, layoutMoreItems, write]
    have hlen : (v.write number).length ≤ fuel := by
      simp only [layoutItems, layoutMoreItems, append_nil] at hfuel
      exact Nat.le_of_lt_succ hfuel
    rw [htext, readItems, readValue_write h v fuel _ hlen (ends_cons (by decide) r)]
    rfl
  | v :: w :: items, fuel + 1, r, _, hfuel => by
    have htext : layoutItems writeString writeString number (v :: w :: items) ++ ']' :: r =
        v.write number ++ ',' ::
          (layoutItems writeString writeString number (w :: items) ++ ']' :: r) := by
      simp [layoutItems, layoutMoreItems, write]
    have hlen := congrArg length htext
    simp only [length_append, length_cons] at hlen
    obtain ⟨c, t, hhead, -⟩ := write_head h v
    have hpos : 0 < (v.write number).length := by
      rw [hhead]
      exact Nat.succ_pos _
    rw [htext, readItems, readValue_write h v fuel _ (by omega) (ends_cons (by decide) _)]
    show (readItems readNumber fuel (layoutItems writeString writeString number (w :: items) ++
      ']' :: r)).map _ = _
    rw [readItems_write h (w :: items) fuel r (by simp) (by omega)]
    rfl
  | _ :: _, 0, _, _, hfuel => absurd hfuel (Nat.not_lt_zero _)

theorem readFields_write (h : NumberText number readNumber) : ∀ (fields : List (String × Json))
    (fuel : Nat) (r : Text), fields ≠ [] →
    (layoutFields writeString writeString number fields).length < fuel →
      readFields readNumber fuel (layoutFields writeString writeString number fields ++
        '}' :: r) = some (fields, r)
  | [], _, _, hne, _ => absurd rfl hne
  | [(name, v)], fuel + 1, r, _, hfuel => by
    have htext : layoutFields writeString writeString number [(name, v)] ++ '}' :: r =
        '"' :: (name.toList.flatMap escapeChar ++ '"' :: ':' :: (v.write number ++ '}' :: r)) := by
      simp [layoutFields, layoutMoreFields, write, writeString]
    have hlen := congrArg length htext
    simp only [length_append, length_cons] at hlen
    rw [htext, readFields, readChars_write]
    show (readValue readNumber fuel (v.write number ++ '}' :: r)).bind _ = _
    rw [readValue_write h v fuel _ (by omega) (ends_cons (by decide) r)]
    show some ([(String.ofList name.toList, v)], r) = _
    rw [String.ofList_toList]
  | (name, v) :: field :: fields, fuel + 1, r, _, hfuel => by
    have htext : layoutFields writeString writeString number ((name, v) :: field :: fields) ++
        '}' :: r = '"' :: (name.toList.flatMap escapeChar ++ '"' :: ':' :: (v.write number ++ ',' ::
          (layoutFields writeString writeString number (field :: fields) ++ '}' :: r))) := by
      obtain ⟨name', w⟩ := field
      simp [layoutFields, layoutMoreFields, write, writeString]
    have hlen := congrArg length htext
    simp only [length_append, length_cons] at hlen
    rw [htext, readFields, readChars_write]
    show (readValue readNumber fuel (v.write number ++ ',' :: (layoutFields writeString
      writeString number (field :: fields) ++ '}' :: r))).bind _ = _
    rw [readValue_write h v fuel _ (by omega) (ends_cons (by decide) _)]
    show (readFields readNumber fuel (layoutFields writeString writeString number
      (field :: fields) ++ '}' :: r)).map _ = _
    rw [readFields_write h (field :: fields) fuel r (by simp) (by omega)]
    show some ((String.ofList name.toList, v) :: field :: fields, r) = _
    rw [String.ofList_toList]
  | _ :: _, 0, _, _, hfuel => absurd hfuel (Nat.not_lt_zero _)
end

/-- **The text of a value is read as the value.** -/
theorem Json.read_write (h : NumberText number readNumber) (v : Json) :
    read readNumber (v.write number) = some v := by
  have hread := readValue_write h v ((v.write number).length + 1) [] (Nat.le_succ _) nofun
  rw [append_nil] at hread
  rw [read, hread]

/-- **The text of a value says which it is.** -/
theorem Json.write_injective (h : NumberText number readNumber) :
    Function.Injective (write number) := by
  intro v w heq
  have hread := read_write h v
  rw [heq, read_write h w] at hread
  exact (Option.some.inj hread).symm

end

end Gen2
