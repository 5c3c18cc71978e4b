import Gen2.Types.Text

/-!
# The text of JSON

`serde_json` is not part of the repository.  What its texts look like is: it writes values without
white space, and escapes in a string what must be escaped.

* `Json.layout` writes a value, with a way to write keys, strings and numbers left open;
  `writeString` is the one that `serde_json` has for keys and strings.
* `InString` is what may stand between the quotes of a string.
* `IsJson` is the grammar, white space included.  A number, or one of the three names, is any run of
  the characters that these are made of (`isBareChar`): that is more than JSON, which the results
  about it allow.
-/

namespace Gen2

/-! ## Strings -/

/-- `format_escaped_str_contents`: one character of a string. -/
def escapeChar (c : Char) : Text :=
  if c = '"' then ['\\', '"']
  else if c = '\\' then ['\\', '\\']
  else if c = '\n' then ['\\', 'n']
  else if c = '\r' then ['\\', 'r']
  else if c = '\t' then ['\\', 't']
  else if c = '\x08' then ['\\', 'b']
  else if c = '\x0c' then ['\\', 'f']
  else if c.toNat < 0x20 then
    ['\\', 'u', '0', '0', Nat.digitChar (c.toNat / 16), Nat.digitChar (c.toNat % 16)]
  else [c]

/-- `format_escaped_str`. -/
def writeString (s : Text) : Text := '"' :: (s.flatMap escapeChar ++ ['"'])

/-- What stands between the quotes of a string: characters, and escapes, which begin with an ASCII
character. -/
inductive InString : Text → Prop
  | nil : InString []
  | char (c : Char) (t : Text) (hquote : c ≠ '"') (hescape : c ≠ '\\') (h : InString t) :
      InString (c :: t)
  | escape (c : Char) (t : Text) (hascii : c.utf8Size = 1) (h : InString t) :
      InString ('\\' :: c :: t)

theorem InString.append {s t : Text} (hs : InString s) (ht : InString t) : InString (s ++ t) := by
  induction hs with
  | nil => exact ht
  | char c s hquote hescape _ ih => exact .char c _ hquote hescape ih
  | escape c s hascii _ ih => exact .escape c _ hascii ih

theorem inString_escapeChar (c : Char) : InString (escapeChar c) := by
  have hdigit : ∀ n < 16, Nat.digitChar n ≠ '"' ∧ Nat.digitChar n ≠ '\\' := by decide
  unfold escapeChar
  split_ifs with hquote hescape hn hr ht hb hf hcontrol
  · exact .escape _ _ (by decide) .nil
  · exact .escape _ _ (by decide) .nil
  · exact .escape _ _ (by decide) .nil
  · exact .escape _ _ (by decide) .nil
  · exact .escape _ _ (by decide) .nil
  · exact .escape _ _ (by decide) .nil
  · exact .escape _ _ (by decide) .nil
  · obtain ⟨hquote₁, hescape₁⟩ := hdigit (c.toNat / 16) (by omega)
    obtain ⟨hquote₂, hescape₂⟩ := hdigit (c.toNat % 16) (by omega)
    refine .escape 'u' _ (by decide) ?_
    refine .char '0' _ (by decide) (by decide) (.char '0' _ (by decide) (by decide) ?_)
    exact .char _ _ hquote₁ hescape₁ (.char _ _ hquote₂ hescape₂ .nil)
  · exact .char c _ hquote hescape .nil

/-- What `serde_json` writes between the quotes. -/
theorem inString_flatMap (s : Text) : InString (s.flatMap escapeChar) := by
  induction s with
  | nil => exact .nil
  | cons c s ih => exact (inString_escapeChar c).append ih

/-! ## Values -/

/-- The characters of numbers, and of `true`, `false` and `null`. -/
def isBareChar (c : Char) : Bool := c.isAlphanum || c == '-' || c == '+' || c == '.'

/-- A text of such characters. -/
def Bare (t : Text) : Prop := t ≠ [] ∧ ∀ c ∈ t, isBareChar c = true

mutual
/-- A value without white space. -/
def Json.layout (key string : Text → Text) (number : JsonNumber → Text) : Json → Text
  | .null => "null".toList
  | .bool b => if b then "true".toList else "false".toList
  | .number n => number n
  | .string s => string s.toList
  | .array items => '[' :: (Json.layoutItems key string number items ++ [']'])
  | .object fields => '{' :: (Json.layoutFields key string number fields ++ ['}'])

/-- The items of an array. -/
def Json.layoutItems (key string : Text → Text) (number : JsonNumber → Text) : List Json → Text
  | [] => []
  | v :: items => Json.layout key string number v ++ Json.layoutMoreItems key string number items

/-- The items but the first. -/
def Json.layoutMoreItems (key string : Text → Text) (number : JsonNumber → Text) :
    List Json → Text
  | [] => []
  | v :: items =>
    ',' :: (Json.layout key string number v ++ Json.layoutMoreItems key string number items)

/-- The fields of an object. -/
def Json.layoutFields (key string : Text → Text) (number : JsonNumber → Text) :
    List (String × Json) → Text
  | [] => []
  | (name, v) :: fields =>
    key name.toList ++ ':' :: (Json.layout key string number v ++
      Json.layoutMoreFields key string number fields)

/-- The fields but the first. -/
def Json.layoutMoreFields (key string : Text → Text) (number : JsonNumber → Text) :
    List (String × Json) → Text
  | [] => []
  | (name, v) :: fields =>
    ',' :: (key name.toList ++ ':' :: (Json.layout key string number v ++
      Json.layoutMoreFields key string number fields))
end

/-- `Value::to_string`, for a way to write numbers. -/
def Json.write (number : JsonNumber → Text) (v : Json) : Text :=
  v.layout writeString writeString number

/-! ## The grammar -/

/-- White space of JSON. -/
def isJsonSpace (c : Char) : Bool := [' ', '\t', '\n', '\r'].contains c

/-- What a text may be read as. -/
inductive JsonForm
  | value
  | element
  | elements
  | member
  | members

/-- The grammar of JSON. -/
inductive IsJson : JsonForm → Text → Prop
  | bare (t : Text) (h : Bare t) : IsJson .value t
  | string (t : Text) (h : InString t) : IsJson .value ('"' :: (t ++ ['"']))
  | emptyArray (ws : Text) (h : ∀ c ∈ ws,
    isJsonSpace c = true) : IsJson .value ('[' :: (ws ++ [']']))
  | array (t : Text) (h : IsJson .elements t) : IsJson .value ('[' :: (t ++ [']']))
  | emptyObject (ws : Text) (h : ∀ c ∈ ws, isJsonSpace c = true) :
      IsJson .value ('{' :: (ws ++ ['}']))
  | object (t : Text) (h : IsJson .members t) : IsJson .value ('{' :: (t ++ ['}']))
  | element (ws t ws' : Text) (hws : ∀ c ∈ ws, isJsonSpace c = true) (h : IsJson .value t)
      (hws' : ∀ c ∈ ws', isJsonSpace c = true) : IsJson .element (ws ++ (t ++ ws'))
  | oneElement (t : Text) (h : IsJson .element t) : IsJson .elements t
  | moreElements (t t' : Text) (h : IsJson .element t) (h' : IsJson .elements t') :
      IsJson .elements (t ++ ',' :: t')
  | member (ws k ws' t : Text) (hws : ∀ c ∈ ws, isJsonSpace c = true) (hk : InString k)
      (hws' : ∀ c ∈ ws', isJsonSpace c = true) (h : IsJson .element t) :
      IsJson .member (ws ++ '"' :: (k ++ '"' :: (ws' ++ ':' :: t)))
  | oneMember (t : Text) (h : IsJson .member t) : IsJson .members t
  | moreMembers (t t' : Text) (h : IsJson .member t) (h' : IsJson .members t') :
      IsJson .members (t ++ ',' :: t')

end Gen2
