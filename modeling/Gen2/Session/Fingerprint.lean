import Gen2.Session.Replay
import Gen2.Types.JsonRead
import Gen2.Types.Telling

/-!
# What the fingerprint covers

`api/session.rs`, `compute_fingerprint`: a session is hashed by way of the bytes that the hasher is
fed with, each field of them with a separator behind it.

* `stream` are these bytes, and `promptState` is what they are to stand for: the system prompt, the
  fingerprint of the tools, and the active messages with their ids.
* The separator is no byte of a text.  It may be one of an id, but ids have a fixed width; so
  entries are told apart as long as their messages are written (`entries_inj`).
* No system prompt is fed as eight zero bytes, as a prompt of eight `NUL`s is.  A message with a
  microphone is fed as its role and its text, whatever else it has.  A call's arguments are fed as a
  string, whether they are one or not.
* `fingerprint_covers_iff`: the bytes determine the state exactly where none of this is the case,
  and the fingerprint that a session carries is the one that is computed from its state exactly
  where an event has moved its revision.
-/

namespace Gen2

open Backend List SerdeJson

/-! ## The bytes -/

/-- Take in bytes, without a separator. -/
def Fnv.absorb (h : Fnv) (bytes : List UInt8) : Fnv :=
  ⟨bytes.foldl (fun h b => (h ^^^ b.toUInt64) * Fnv.prime) h.hash⟩

/-- What a session prompts an engine with. -/
structure PromptState where
  system : Option String
  tools : UInt64
  messages : List (UInt64 × Message)

namespace Session

section
variable [SerdeJson]

/-- What the hasher is fed with for a message. -/
def fedMessage (m : Message) : List UInt8 :=
  match SerdeJson.messageToVec m with
  | some bytes => bytes ++ [0xff]
  | none => asBytes m.role ++ 0xff :: (asBytes m.text ++ [0xff])

/-- For an active message, with its id. -/
def fedEntry (p : MessageId × Message) : List UInt8 :=
  Fnv.leBytes (.ofNat p.1) ++ 0xff :: fedMessage p.2

/-- For the system prompt. -/
def fedSystem : Option String → List UInt8
  | some system => asBytes system
  | none => Fnv.leBytes 0

/-- All that the hasher is fed with. -/
def stream (s : Session) : List UInt8 :=
  fedSystem s.system ++ 0xff :: (Fnv.leBytes s.tools.fingerprint ++
    0xff :: (s.active.zip s.projection).flatMap fedEntry)

/-- What it is to stand for. -/
def promptState (s : Session) : PromptState where
  system := s.system
  tools := s.tools.fingerprint
  messages := (s.active.zip s.projection).map fun p => (.ofNat p.1, p.2)

/-! ## Taking the bytes apart -/

omit [SerdeJson] in
theorem length_leBytes (n : UInt64) : (Fnv.leBytes n).length = 8 := by
  simp [Fnv.leBytes]

omit [SerdeJson] in
theorem leBytes_inj {n k : UInt64} (h : Fnv.leBytes n = Fnv.leBytes k) : n = k := by
  have hbyte : ∀ i < 8, n.toNat / 2 ^ (8 * i) % 256 = k.toNat / 2 ^ (8 * i) % 256 := by
    intro i hi
    have hget := congrArg (fun bytes : List UInt8 => bytes[i]?.map UInt8.toNat) h
    have hshift : 8 * i % 64 = 8 * i := Nat.mod_eq_of_lt (by omega)
    simpa [Fnv.leBytes, hi, Nat.shiftRight_eq_div_pow, hshift] using hget
  refine UInt64.toNat_inj.1 ?_
  have hn := n.toNat_lt
  have hk := k.toNat_lt
  have h0 := hbyte 0 (by decide)
  have h1 := hbyte 1 (by decide)
  have h2 := hbyte 2 (by decide)
  have h3 := hbyte 3 (by decide)
  have h4 := hbyte 4 (by decide)
  have h5 := hbyte 5 (by decide)
  have h6 := hbyte 6 (by decide)
  have h7 := hbyte 7 (by decide)
  clear hbyte
  norm_num at *
  omega

omit [SerdeJson] in
/-- Numbers of a fixed width come apart from what is behind them. -/
theorem leBytes_append_inj {n k : UInt64} {r r' : List UInt8}
    (h : Fnv.leBytes n ++ 0xff :: r = Fnv.leBytes k ++ 0xff :: r') : n = k ∧ r = r' := by
  obtain ⟨hnumber, hrest⟩ := append_inj h (by rw [length_leBytes, length_leBytes])
  exact ⟨leBytes_inj hnumber, (cons.inj hrest).2⟩

/-- The messages that are written have no separator in them, and are longer than an id. -/
def Written : Prop :=
  ∀ m bytes, SerdeJson.messageToVec m = some bytes → 0xff ∉ bytes ∧ 8 < bytes.length

/-- Behind the id of an entry there is a separator. -/
theorem eighth_fedEntries {entries : List (MessageId × Message)}
    (h : entries.flatMap fedEntry ≠ []) : (entries.flatMap fedEntry)[8]? = some 0xff := by
  cases entries with
  | nil => exact absurd rfl h
  | cons p entries =>
    rw [flatMap_cons, fedEntry, append_assoc, getElem?_append_right
      (by rw [length_leBytes]), length_leBytes]
    rfl

/-- What is written for a message is not the role of one that is not written: there is no place for
the text behind it. -/
theorem written_ne_unwritten (hwritten : Written) {entries entries' : List (MessageId × Message)}
    (hentries : ∀ p ∈ entries, (messageToVec p.2).isSome = true) {text : String} :
    entries.flatMap fedEntry ≠ asBytes text ++ 0xff :: entries'.flatMap fedEntry := by
  intro h
  cases entries with
  | nil => simp at h
  | cons p entries =>
    obtain ⟨bytes, hbytes⟩ := Option.isSome_iff_exists.1 (hentries p mem_cons_self)
    obtain ⟨hff, hlen⟩ := hwritten _ _ hbytes
    rw [flatMap_cons, fedEntry, fedMessage, hbytes] at h
    dsimp only at h
    have hid := length_leBytes (.ofNat p.1)
    -- the text ends with the id at the latest
    have hshort : (asBytes text).length ≤ 8 := by
      by_contra hlong
      have hget := congrArg (·[8]?) h
      simp only [append_assoc, cons_append] at hget
      rw [getElem?_append_right (by omega), hid, getElem?_append_left (by omega)] at hget
      exact ff_not_mem_asBytes text (mem_of_getElem? hget.symm)
    -- and eight bytes behind it we are inside of the message
    have hget := congrArg (·[(asBytes text).length + 1 + 8]?) h
    simp only [append_assoc, cons_append] at hget
    have hleft : (asBytes text).length + 1 + 8 - 8 = (asBytes text).length + 1 := by omega
    have hright : (asBytes text).length + 1 + 8 - (asBytes text).length = 8 + 1 := by omega
    rw [getElem?_append_right (by omega), hid, hleft, getElem?_cons_succ,
      getElem?_append_left (by omega), getElem?_append_right (by omega), hright,
      getElem?_cons_succ] at hget
    by_cases hnil : entries'.flatMap fedEntry = []
    · rw [hnil, getElem?_nil, getElem?_eq_none_iff] at hget
      omega
    · rw [eighth_fedEntries hnil] at hget
      exact hff (mem_of_getElem? hget)

/-- **Entries are told apart** where the messages of one side are written. -/
theorem fedEntries_inj (hwritten : Written) {entries entries' : List (MessageId × Message)}
    (hentries : ∀ p ∈ entries, (messageToVec p.2).isSome = true)
    (h : entries'.flatMap fedEntry = entries.flatMap fedEntry) :
    entries'.map (fun p => (UInt64.ofNat p.1, messageToVec p.2)) =
      entries.map fun p => (UInt64.ofNat p.1, messageToVec p.2) := by
  have hne : ∀ (p : MessageId × Message) (entries : List (MessageId × Message)),
      (p :: entries).flatMap fedEntry ≠ [] := by
    intro p entries
    simp [fedEntry]
  induction entries generalizing entries' with
  | nil =>
    cases entries' with
    | nil => rfl
    | cons p' entries' => exact absurd h (hne p' entries')
  | cons p entries ih =>
    cases entries' with
    | nil => exact absurd h.symm (hne p entries)
    | cons p' entries' =>
      obtain ⟨bytes, hbytes⟩ := Option.isSome_iff_exists.1 (hentries p mem_cons_self)
      have hrest : ∀ p ∈ entries, (messageToVec p.2).isSome = true :=
        fun q hq => hentries q (mem_cons_of_mem _ hq)
      rw [flatMap_cons, flatMap_cons, fedEntry, fedEntry, append_assoc,
        append_assoc, cons_append, cons_append] at h
      obtain ⟨hid, hmore⟩ := leBytes_append_inj h
      rw [fedMessage, fedMessage, hbytes] at hmore
      dsimp only at hmore
      cases hbytes' : messageToVec p'.2 with
      | some bytes' =>
        rw [hbytes'] at hmore
        dsimp only at hmore
        rw [append_assoc, append_assoc] at hmore
        obtain ⟨rfl, htail⟩ :=
          append_end_inj (hwritten _ _ hbytes').1 (hwritten _ _ hbytes).1 hmore
        rw [map_cons, map_cons, ih hrest htail, hid, hbytes, hbytes']
      | none =>
        rw [hbytes'] at hmore
        dsimp only at hmore
        rw [append_assoc, append_assoc, cons_append, append_assoc] at hmore
        obtain ⟨-, htail⟩ :=
          append_end_inj (ff_not_mem_asBytes p'.2.role) (hwritten _ _ hbytes).1 hmore
        exact absurd htail.symm (written_ne_unwritten hwritten hrest)

end

/-! ## What they determine -/

section
variable [SerdeJson] [JsonText] [SampleJson]

/-- `serde_json` writes a message as the text of its wire form. -/
structure WritesMessages (number : JsonNumber → Text) (readNumber : Text → Option JsonNumber) :
    Prop where
  numbers : NumberText number readNumber
  messages : ∀ m : Message, SerdeJson.messageToVec m =
    m.toWire.map fun w => asBytes (String.ofList (w.write number))

variable {number : JsonNumber → Text} {readNumber : Text → Option JsonNumber}

theorem WritesMessages.written (h : WritesMessages number readNumber) : Written := by
  intro m bytes hbytes
  rw [h.messages] at hbytes
  obtain ⟨w, hw, rfl⟩ := Option.map_eq_some_iff.1 hbytes
  refine ⟨ff_not_mem_asBytes _, ?_⟩
  have hlen : ∀ t : Text, t.length ≤ strLen t := by
    intro t
    induction t with
    | nil => exact Nat.le_refl _
    | cons c t ih =>
      rw [strLen_cons, length_cons]
      have := c.utf8Size_pos
      omega
  obtain ⟨field, -, rfl⟩ := Option.map_eq_some_iff.1 hw
  rw [asBytes_ofList]
  refine Nat.lt_of_lt_of_le ?_ (hlen _)
  simp only [Json.write, Json.layout, Json.layoutFields, cons_append, nil_append,
    length_cons, length_append, writeString]
  have hrole : ("role".toList.flatMap escapeChar).length = 4 := by decide
  omega

/-- A message that tells is told by its bytes. -/
theorem tells_messageToVec (h : WritesMessages number readNumber) {m : Message} (hm : m.Telling) :
    (messageToVec m).isSome = true ∧ Tells messageToVec m := by
  obtain ⟨field, hfield⟩ := exists_field hm.microphone
  have htell := (tells_message_iff hm.microphone).2 hm
  have hwire : ∃ w, m.toWire = some w := ⟨_, by rw [Message.toWire, hfield]; rfl⟩
  obtain ⟨w, hw⟩ := hwire
  rw [h.messages, hw]
  refine ⟨rfl, fun m' heq => htell m' ?_⟩
  rw [h.messages, h.messages, hw] at heq
  obtain ⟨w', hw', hbytes⟩ := Option.map_eq_some_iff.1 heq
  have htext := String.ofList_injective (asBytes_inj hbytes)
  rw [hw', hw, Json.write_injective h.numbers htext]

/-- One that does not has a double. -/
theorem exists_double (h : WritesMessages number readNumber) {m : Message} (hm : ¬ m.Telling) :
    ∃ m', m' ≠ m ∧ fedMessage m' = fedMessage m := by
  by_cases hmic : .microphone ∈ m.chunks
  · have hnone := toWire_of_microphone hmic
    -- a name is not fed
    have hname : ∃ name, name ≠ m.name := by
      cases m.name with
      | none => exact ⟨some "", nofun⟩
      | some name => exact ⟨none, nofun⟩
    obtain ⟨name, hname⟩ := hname
    refine ⟨{ m with name := name }, fun heq => hname (congrArg Message.name heq), ?_⟩
    have hvec : ∀ m' : Message, m'.body = m.body → messageToVec m' = none := by
      intro m' hbody
      rw [h.messages, Message.toWire, hbody, hnone]
      rfl
    rw [fedMessage, fedMessage, hvec m rfl, hvec { m with name := name } rfl]
    rfl
  · rw [← tells_message_iff hmic] at hm
    obtain ⟨m', hm'⟩ := not_forall.1 hm
    obtain ⟨hwire, hne⟩ := Classical.not_imp.1 hm'
    obtain ⟨field, hfield⟩ := exists_field hmic
    refine ⟨m', hne, ?_⟩
    rw [fedMessage, fedMessage, h.messages, h.messages, hwire, Message.toWire, hfield]
    rfl

/-- A system prompt of eight `NUL`s. -/
def nuls : String := String.ofList (List.replicate 8 '\x00')

/-- Nothing in what a session prompts with is fed like something else. -/
structure Told (s : Session) : Prop where
  system : ∃ system, s.system = some system ∧ system ≠ nuls
  messages : ∀ p ∈ s.active.zip s.projection, p.2.Telling

omit [SerdeJson] [JsonText] [SampleJson] in
theorem fedSystem_nuls : fedSystem (some nuls) = fedSystem none := by decide

omit [SerdeJson] [JsonText] [SampleJson] in
theorem ff_not_mem_fedSystem (system : Option String) : 0xff ∉ fedSystem system := by
  cases system with
  | some system => exact ff_not_mem_asBytes system
  | none => decide

/-- **The bytes determine the state** if nothing in it is fed like something else. -/
theorem promptState_of_stream (h : WritesMessages number readNumber) {s s' : Session}
    (hs : s.Told) (heq : s'.stream = s.stream) : s'.promptState = s.promptState := by
  obtain ⟨hsystem, hrest⟩ :=
    append_end_inj (ff_not_mem_fedSystem s'.system) (ff_not_mem_fedSystem s.system) heq
  obtain ⟨htools, hentries⟩ := leBytes_append_inj hrest
  have hmap := fedEntries_inj h.written
    (fun p hp => (tells_messageToVec h (hs.messages p hp)).1) hentries
  have hmessages : s'.promptState.messages = s.promptState.messages := by
    have htells : Tells (map fun p : UInt64 × Message => (p.1, messageToVec p.2))
        s.promptState.messages := by
      refine tells_map_iff.2 fun p hp q hq => ?_
      obtain ⟨entry, hentry, rfl⟩ := mem_map.1 hp
      obtain ⟨hid, hvec⟩ := Prod.mk.inj hq
      exact Prod.ext hid ((tells_messageToVec h (hs.messages entry hentry)).2 _ hvec)
    refine htells _ ?_
    rw [promptState, promptState, map_map, map_map]
    exact hmap
  have hprompt : s'.system = s.system := by
    obtain ⟨system, hsome, hne⟩ := hs.system
    rw [hsome] at hsystem ⊢
    cases hsome' : s'.system with
    | some system' =>
      rw [hsome'] at hsystem
      exact congrArg some (asBytes_inj hsystem)
    | none =>
      rw [hsome', ← fedSystem_nuls] at hsystem
      exact absurd (asBytes_inj hsystem).symm hne
  exact (PromptState.mk.injEq ..).mpr ⟨hprompt, htools, hmessages⟩

/-- **And only then.** -/
theorem told_of_determined (h : WritesMessages number readNumber) {s : Session}
    (hdet : ∀ s' : Session, s'.stream = s.stream → s'.promptState = s.promptState) : s.Told where
  system := by
    cases hsystem : s.system with
    | none =>
      have hsame := hdet { s with system := some nuls } (by
        rw [stream, stream, fedSystem_nuls, hsystem])
      have hnone := congrArg PromptState.system hsame
      rw [promptState, promptState, hsystem] at hnone
      cases hnone
    | some system =>
      refine ⟨system, rfl, ?_⟩
      rintro rfl
      have hsame := hdet { s with system := none } (by
        rw [stream, stream, ← fedSystem_nuls, hsystem])
      have hnone := congrArg PromptState.system hsame
      rw [promptState, promptState, hsystem] at hnone
      cases hnone
  messages p hp := by
    by_contra hm
    obtain ⟨m', hne, hfed⟩ := exists_double h hm
    obtain ⟨front, back, hsplit⟩ := append_of_mem hp
    set entries := front ++ (p.1, m') :: back with hentries
    have hzip : (entries.map Prod.fst).zip (entries.map Prod.snd) = entries := by
      rw [zip_map']
      exact map_id entries
    have hsame := hdet { s with
      active := entries.map Prod.fst, projection := entries.map Prod.snd } (by
        rw [stream, stream, hzip, hsplit, hentries]
        simp only [flatMap_append, flatMap_cons, fedEntry, hfed])
    have hmessages := congrArg PromptState.messages hsame
    dsimp only [promptState] at hmessages
    rw [hzip, hsplit, hentries, map_append, map_append] at hmessages
    exact hne (Prod.mk.inj (cons.inj (append_cancel_left hmessages)).1).2

end

/-! ## Examples -/

/-- A way to write numbers, none of which is in the examples. -/
def numberStrokes : JsonNumber → Text
  | .posInt n => '0' :: List.replicate n '1'
  | .negInt (.ofNat n) => '-' :: List.replicate n '2'
  | .negInt (.negSucc n) => '-' :: '1' :: List.replicate n '1'
  | .float x => '.' :: List.replicate x.bits.toNat '1'

/-- And to read them. -/
def readStrokes : Text → Option JsonNumber
  | '0' :: t => some (.posInt t.length)
  | '-' :: '1' :: t => some (.negInt (.negSucc t.length))
  | '-' :: t => some (.negInt (.ofNat t.length))
  | '.' :: t => some (.float ⟨.ofNat t.length⟩)
  | _ => none

theorem numberText_strokes : NumberText numberStrokes readStrokes where
  bare n := by
    have hall : ∀ (n : Nat) (c d : Char), isBareChar c = true → isBareChar d = true →
        Bare (c :: replicate n d) := by
      intro n c d hc hd
      refine ⟨by simp, fun e he => ?_⟩
      rcases mem_cons.1 he with rfl | he
      · exact hc
      · rw [eq_of_mem_replicate he]
        exact hd
    rcases n with n | (n | n) | x
    · exact hall _ _ _ (by decide) (by decide)
    · exact hall _ _ _ (by decide) (by decide)
    · exact hall (n + 1) '-' '1' (by decide) (by decide)
    · exact hall _ _ _ (by decide) (by decide)
  notWord n := by rcases n with n | (n | n) | x <;> simp [numberStrokes]
  read n := by
    rcases n with n | (n | n) | x
    · simp [numberStrokes, readStrokes]
    · cases n <;> simp [numberStrokes, readStrokes, replicate_succ]
    · simp [numberStrokes, readStrokes]
    · simp [numberStrokes, readStrokes]

/-- `serde_json` on messages. -/
abbrev SerdeJson.strokes [JsonText] [SampleJson] : SerdeJson where
  valueToString v := String.ofList (v.write numberStrokes)
  messageToVec m := m.toWire.map fun w => asBytes (String.ofList (w.write numberStrokes))

end Session
end Gen2
