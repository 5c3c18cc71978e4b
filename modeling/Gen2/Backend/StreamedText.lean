import Gen2.Backend.PlainReply
import Gen2.Types.Pieces

/-!
# The text that is streamed

How the tokens of a reply become text in `backend/llama/puller.rs` and `backend/mlx/puller.rs`, and
when that text is the lossy decoding of their bytes.

* `Llama.detokenise` asks for the bytes of a token with a buffer of 32 bytes, and hands them to a
  decoder that has room for 32 bytes of text; it is not told that the reply is over.  The decoder of
  the package `encoding_rs` is a parameter, and `Utf8Decoder.Documented` what is known of it.
* `Mlx.streamed` decodes every token by itself.
* `Mlx.streamed_iff`: the text is the whole one if and only if no token ends inside of a character
  that the next ones go on with.
* `Llama.streamed_iff`: if and only if every piece fits in the buffer and the reply does not end
  inside of a character, where the decoder reads the pieces whole and there is no byte order mark.
-/

namespace Gen2
namespace Backend

open Lib Generation List

/-- A filter that nothing has gone through. -/
structure Fresh (patterns : List StopPattern) (f : OutputFilter) : Prop where
  running : OutputFilter.Running patterns f
  pending : f.pending = []
  behind : f.behind = []

theorem fresh_new (patterns : List StopPattern) : Fresh patterns (OutputFilter.new patterns) :=
  ⟨⟨rfl, rfl, rfl, fun _ => rfl⟩, rfl, rfl⟩

/-! ## llama -/

/-- A streaming decoder: the text it has written for the bytes it has read, and how many of the
bytes it is given it reads with so much room to write. -/
structure Utf8Decoder where
  text : List UInt8 → Text
  reads : List UInt8 → List UInt8 → Nat → Nat

/-- What a decoder that sniffs takes off, or takes for the sign of another encoding. -/
def byteOrderMarks : List (List UInt8) := [[0xef, 0xbb, 0xbf], [0xff, 0xfe], [0xfe, 0xff]]

/-- The bytes begin with a mark. -/
def Marked (bytes : List UInt8) : Prop := ∃ mark ∈ byteOrderMarks, mark <+: bytes

/-- The bytes could be the beginning of a mark. -/
def MarkBegun (bytes : List UInt8) : Prop := bytes ≠ [] ∧ ∃ mark ∈ byteOrderMarks, bytes <+: mark

instance (bytes : List UInt8) : Decidable (Marked bytes) :=
  inferInstanceAs (Decidable (∃ mark ∈ byteOrderMarks, mark <+: bytes))

instance (bytes : List UInt8) : Decidable (MarkBegun bytes) :=
  inferInstanceAs (Decidable (bytes ≠ [] ∧ ∃ mark ∈ byteOrderMarks, bytes <+: mark))

/-- What is documented of `UTF_8.new_decoder()`: what is written is not taken back; where there is
no mark it is what no further bytes can change, all of it once no mark can come to be there. -/
structure Utf8Decoder.Documented (d : Utf8Decoder) : Prop where
  grows : ∀ read more, d.text read <+: d.text (read ++ more)
  writes : ∀ read, ¬ Marked read → d.text read <+: complete read
  decodes : ∀ read, ¬ Marked read → ¬ MarkBegun read → d.text read = complete read

/-- `decode_to_string`, into a string with so much room: the text, and what has been read. -/
def Utf8Decoder.decodeToString (d : Utf8Decoder) (read src : List UInt8) (room : Nat) :
    Text × List UInt8 :=
  let now := read ++ src.take (d.reads read src room)
  ((d.text now).drop (d.text read).length, now)

/-- `token_to_piece_bytes`, of a token with these bytes. -/
def tokenToPieceBytes (bufferSize : Nat) (piece : List UInt8) : Except ExecError (List UInt8) :=
  if piece.length = 0 then .error (.other "Unknown Token Type")
  else if bufferSize < piece.length then
    .error (.other ("Insufficient Buffer Space -" ++ toString piece.length))
  else .ok piece

namespace Llama

/-- The texts of the tokens, each given with its bytes, up to one that fails; `read` is what the
decoder has read. -/
def detokenise (d : Utf8Decoder) :
    List UInt8 → List (UInt32 × List UInt8) → List (UInt32 × Text) × Option ExecError
  | _, [] => ([], none)
  | read, (id, piece) :: tokens =>
    match tokenToPieceBytes 32 piece with
    | .error err => ([], some err)
    | .ok bytes =>
      let (out, now) := d.decodeToString read bytes 32
      let (texts, failed) := detokenise d now tokens
      ((id, out) :: texts, failed)

/-- How a reply ends: with a token that fails, or as it would. -/
def endingOf (extra : TokenEvent) : Option ExecError → Event
  | none => .ok extra
  | some err => .error err

/-- What the puller hands over for the tokens of a reply, which ends with `extra` unless a token
fails. -/
def streamed [JsonText] (d : Utf8Decoder) (f : OutputFilter) (extra : TokenEvent)
    (tokens : List (UInt32 × List UInt8)) : Option (List Event) :=
  f.pullRounds (endingOf extra (detokenise d [] tokens).2)
    ((detokenise d [] tokens).1.map fun token => [token])

/-- The decoder reads every piece that there is room for to its end. -/
def ReadWhole (d : Utf8Decoder) (read : List UInt8) (pieces : List (List UInt8)) : Prop :=
  ∀ before p after, pieces = before ++ p :: after → p.length ≤ 32 →
    p.length ≤ d.reads (read ++ before.flatten) p 32

theorem ReadWhole.tail {d : Utf8Decoder} {read p : List UInt8} {pieces : List (List UInt8)}
    (h : ReadWhole d read (p :: pieces)) : ReadWhole d (read ++ p) pieces := by
  intro before q after heq hroom
  have hwhole := h (p :: before) q after (by rw [heq, cons_append]) hroom
  rwa [flatten_cons, ← append_assoc] at hwhole

theorem decodeToString_whole {d : Utf8Decoder} {read src : List UInt8} {room : Nat}
    (h : src.length ≤ d.reads read src room) :
    d.decodeToString read src room =
      ((d.text (read ++ src)).drop (d.text read).length, read ++ src) := by
  rw [Utf8Decoder.decodeToString, take_of_length_le h]

/-- **What the tokens come out as**: the text of their bytes, up to a token whose bytes do not fit
in the buffer. -/
theorem detokenise_spec {d : Utf8Decoder} (hd : d.Documented)
    (tokens : List (UInt32 × List UInt8)) {read : List UInt8}
    (hread : ReadWhole d read (tokens.map Prod.snd)) (hne : ∀ token ∈ tokens, token.2 ≠ []) :
    ∃ before after, tokens.map Prod.snd = before ++ after ∧
      d.text read ++ ((detokenise d read tokens).1.map Prod.snd).flatten =
        d.text (read ++ before.flatten) ∧
      ((detokenise d read tokens).2 = none ∧ after = [] ∧ (∀ p ∈ before, p.length ≤ 32) ∨
        (detokenise d read tokens).2.isSome = true ∧
          ∃ p after', after = p :: after' ∧ 32 < p.length) := by
  induction tokens generalizing read with
  | nil => exact ⟨[], [], rfl, by simp [detokenise], .inl ⟨rfl, rfl, by simp⟩⟩
  | cons token tokens ih =>
    obtain ⟨name, piece⟩ := token
    have hpiece : piece ≠ [] := hne (name, piece) mem_cons_self
    by_cases hlong : 32 < piece.length
    · have hfails : tokenToPieceBytes 32 piece =
          .error (.other ("Insufficient Buffer Space -" ++ toString piece.length)) := by
        rw [tokenToPieceBytes, if_neg (by simpa using hpiece), if_pos hlong]
      refine ⟨[], _, rfl, ?_, .inr ⟨?_, piece, tokens.map Prod.snd, rfl, hlong⟩⟩
      · rw [detokenise, hfails]
        simp
      · rw [detokenise, hfails]
        rfl
    · have hfits : tokenToPieceBytes 32 piece = .ok piece := by
        rw [tokenToPieceBytes, if_neg (by simpa using hpiece), if_neg hlong]
      have hwhole : piece.length ≤ d.reads read piece 32 := by
        simpa using hread [] piece (tokens.map Prod.snd) rfl (Nat.le_of_not_lt hlong)
      obtain ⟨before, after, hsplit, htext, hends⟩ :=
        ih hread.tail fun token htoken => hne token (mem_cons_of_mem _ htoken)
      have hstep : detokenise d read ((name, piece) :: tokens) =
          ((name, (d.text (read ++ piece)).drop (d.text read).length) ::
            (detokenise d (read ++ piece) tokens).1, (detokenise d (read ++ piece) tokens).2) := by
        rw [detokenise, hfits]
        dsimp only
        rw [decodeToString_whole hwhole]
      refine ⟨piece :: before, after, ?_, ?_, ?_⟩
      · rw [map_cons, hsplit, cons_append]
      · obtain ⟨more, hmore⟩ := hd.grows read piece
        rw [hstep, map_cons, flatten_cons, ← append_assoc, ← hmore, drop_left,
          hmore, htext, flatten_cons, append_assoc]
      · rw [hstep]
        refine hends.imp (fun ⟨hnone, hnil, hall⟩ => ⟨hnone, hnil, ?_⟩) id
        exact forall_mem_cons.2 ⟨Nat.le_of_not_lt hlong, hall⟩

/-- **The llama puller's text is the decoded reply if and only if every piece fits in the buffer and
the reply does not end inside of a character.** -/
theorem streamed_iff [JsonText] {patterns : List StopPattern} {f : OutputFilter}
    (hf : Fresh patterns f) {extra : TokenEvent} (hextra : extra = .eos ∨ extra = .stopped)
    {d : Utf8Decoder} (hd : d.Documented) {tokens : List (UInt32 × List UInt8)}
    (hplain : Plain patterns ((detokenise d [] tokens).1.map Prod.snd).flatten)
    (hread : ReadWhole d [] (tokens.map Prod.snd)) (hne : ∀ token ∈ tokens, token.2 ≠ [])
    (hmarked : ¬ Marked (tokens.map Prod.snd).flatten)
    (hbegun : ¬ MarkBegun (tokens.map Prod.snd).flatten) :
    (streamed d f extra tokens).map emittedText =
        some (fromUtf8Lossy (tokens.map Prod.snd).flatten) ↔
      (∀ token ∈ tokens, token.2.length ≤ 32) ∧ pending (tokens.map Prod.snd).flatten = [] := by
  obtain ⟨before, after, hsplit, htext, hends⟩ := detokenise_spec hd tokens hread hne
  have hnil : d.text [] = [] := hd.decodes [] (by simp [Marked, byteOrderMarks])
    fun hbegun => hbegun.1 rfl
  rw [hnil, nil_append, nil_append] at htext
  have hfits : (∀ token ∈ tokens, token.2.length ≤ 32) ↔
      ∀ p ∈ tokens.map Prod.snd, p.length ≤ 32 := by rw [forall_mem_map]
  have hflat : ((detokenise d [] tokens).1.map fun token => [token]).flatten =
      (detokenise d [] tokens).1 := by
    rw [← flatMap_def]
    exact flatMap_singleton' _
  rw [hfits, streamed]
  rcases hends with ⟨hnone, rfl, hall⟩ | ⟨hfailed, p, after', rfl, hlong⟩
  · -- all the pieces have been read
    have hending : emittedText [.ok extra] = [] := by
      rcases hextra with rfl | rfl <;> rfl
    obtain ⟨events, lost, hpull, hout, hlost⟩ :=
      OutputFilter.pullRounds_passes hending ((detokenise d [] tokens).1.map fun token => [token])
        hf.running (by rwa [hf.behind, nil_append, hflat])
    obtain rfl := hlost extra rfl
    rw [append_nil, hf.pending, hf.behind, hflat, htext] at hout
    rw [append_nil] at hsplit
    rw [hsplit] at hmarked hbegun ⊢
    rw [hd.decodes _ hmarked hbegun] at hout
    have hevents : (f.pullRounds (.ok extra)
        ((detokenise d [] tokens).1.map fun token => [token])).map emittedText =
          some (complete before.flatten) := by
      rw [hpull, Option.map_some, hout]
      rfl
    rw [hnone, endingOf, hevents, lossy_eq, Option.some.injEq]
    constructor
    · intro heq
      refine ⟨hall, ?_⟩
      by_contra hpending
      rw [if_neg hpending] at heq
      simpa using congrArg length heq
    · rintro ⟨-, hpending⟩
      rw [if_pos hpending, append_nil]
  · -- what comes out is no more than the text in front of the piece that is too long
    obtain ⟨err, herr⟩ := Option.isSome_iff_exists.1 hfailed
    obtain ⟨events, lost, hpull, hout, -⟩ :=
      OutputFilter.pullRounds_passes (show emittedText [.error err] = [] from rfl)
        ((detokenise d [] tokens).1.map fun token => [token]) hf.running
        (by rwa [hf.behind, nil_append, hflat])
    rw [hf.pending, hf.behind, hflat, htext] at hout
    have hwhole : (tokens.map Prod.snd).flatten = before.flatten ++ (p ++ after'.flatten) := by
      rw [hsplit, flatten_append, flatten_cons]
    have hfront : ¬ Marked before.flatten := by
      rintro ⟨mark, hmark, hpre⟩
      exact hmarked ⟨mark, hmark, hwhole ▸ hpre.trans (prefix_append _ _)⟩
    have hwrites := (hd.writes _ hfront).length_le
    constructor
    · intro heq
      rw [herr, endingOf, hpull, Option.map_some, Option.some.injEq, hwhole, lossy_append] at heq
      have hp : pending before.flatten ++ (p ++ after'.flatten) ≠ [] := by
        have hpos : p ≠ [] := length_pos_iff.1 (by omega)
        simp [hpos]
      have hlength := congrArg length heq
      have hbound := congrArg length hout
      rw [lossy_eq_cons hp, length_append, length_cons] at hlength
      rw [length_append] at hbound
      simp only [emittedText, flatMap_nil, nil_append] at hbound hlength
      omega
    · rintro ⟨hall, -⟩
      have := hall p (by simp [hsplit])
      omega

end Llama

/-! ## MLX -/

namespace Mlx

/-- The text of a token, by itself; `decode` is `HfTokenizer::decode`. -/
def tokenText (decode : List UInt32 → Option Text) (token : UInt32) : Text :=
  (decode [token]).getD []

/-- What the puller hands over for the tokens of a reply, of which a step brings one, or as many as
drafts were accepted and one. -/
def streamed [JsonText] (decode : List UInt32 → Option Text) (f : OutputFilter)
    (extra : TokenEvent) (steps : List (List UInt32)) : Option (List Event) :=
  f.pullRounds (.ok extra)
    (steps.map fun tokens => tokens.map fun token => (token, tokenText decode token))

/-- **The MLX puller's text is what the tokenizer makes of the whole reply if and only if no token
ends inside of a character that the next ones go on with.** -/
theorem streamed_iff [JsonText] {patterns : List StopPattern} {f : OutputFilter}
    (hf : Fresh patterns f) {extra : TokenEvent} (hextra : extra = .eos ∨ extra = .stopped)
    {decode : List UInt32 → Option Text} {piece : UInt32 → List UInt8}
    (hdecode : ∀ tokens, decode tokens = some (fromUtf8Lossy (tokens.flatMap piece)))
    {steps : List (List UInt32)}
    (hplain : Plain patterns (steps.flatten.flatMap (tokenText decode))) :
    (streamed decode f extra steps).map emittedText = decode steps.flatten ↔
      Separate (steps.flatten.map piece) := by
  have htexts : ((steps.map fun tokens => tokens.map fun token =>
      (token, tokenText decode token)).flatten.map Prod.snd).flatten =
        steps.flatten.flatMap (tokenText decode) := by
    rw [← map_flatten, map_map, flatMap_def]
    rfl
  have hone : steps.flatten.flatMap (tokenText decode) =
      ((steps.flatten.map piece).map fromUtf8Lossy).flatten := by
    rw [map_map, ← flatMap_def]
    refine flatMap_congr fun token _ => ?_
    rw [tokenText, hdecode, Option.getD_some, flatMap_singleton]
    rfl
  have hending : emittedText [.ok extra] = [] := by
    rcases hextra with rfl | rfl <;> rfl
  obtain ⟨events, lost, hpull, hout, hlost⟩ :=
    OutputFilter.pullRounds_passes hending (steps.map fun tokens => tokens.map fun token =>
      (token, tokenText decode token)) hf.running (by rwa [hf.behind, nil_append, htexts])
  obtain rfl := hlost extra rfl
  rw [append_nil, hf.pending, hf.behind, htexts, hone] at hout
  rw [streamed, hpull, Option.map_some, hdecode, Option.some.injEq, hout, flatMap_def]
  exact lossy_flatten_iff

end Mlx

/-! ## Both -/

/-- A decoder that reads all it is given, and knows of no marks. -/
def wholeDecoder : Utf8Decoder := ⟨complete, fun _ src _ => src.length⟩

theorem wholeDecoder_documented : wholeDecoder.Documented where
  grows read more := ⟨_, (complete_append read more).symm⟩
  writes _ _ := prefix_rfl
  decodes _ _ _ := rfl

/-- Two tokens with the two bytes of a character. -/
def halves : UInt32 → List UInt8
  | 1 => [0xc3]
  | 2 => [0xa9]
  | _ => []

/-- A tokenizer whose tokens have these bytes. -/
def decodeHalves (tokens : List UInt32) : Option Text :=
  some (fromUtf8Lossy (tokens.flatMap halves))

theorem decodeHalves_eq (tokens : List UInt32) :
    decodeHalves tokens = some (fromUtf8Lossy (tokens.flatMap halves)) := rfl

end Backend
end Gen2
