import Gen2.Backend.ExternalApi.Streams
import Gen2.Backend.Healing

/-!
# Reading a remote stream

`backend/external_api/puller.rs` and `anthropic_puller.rs`: what the two pullers make of a line.

* `openai` and `anthropic` are the wires of the pullers.
* `Wire.exact` is a wire that reads a line the same, but takes an error payload of any shape for an
  error and reads on after every timeout; `ReadsExactly` says that a puller delivers what it makes
  of the whole lines of a stream.
* `openaiLine_error_iff` and `anthropicLine_error_iff` say which error payloads a puller knows.
* `streams_read_exactly`: when a stream is read exactly, whatever the reads it arrives in.
-/

namespace Gen2.ExternalApi

open Generation (TokenEvent)
open Lib Backend List

section
variable [JsonText]

/-- `Value::get` with an index. -/
def itemAt (v : Json) (i : Nat) : Option Json :=
  match v with
  | .array items => items[i]?
  | _ => none

/-- The message of an error. -/
def errorMessage (json : Json) : Option Text :=
  ((Json.get json "error").bind (Json.get · "message")).bind Json.asStr

/-- The data of a line, which is trimmed already. -/
def dataOf (line : Text) : Option Text :=
  if "data: ".toList.isPrefixOf line = false ∧ "data:".toList.isPrefixOf line = false then none
  else match stripPrefix line "data: ".toList with
    | some rest => some rest
    | none => some (line.drop 5)

/-! ## OpenAI -/

/-- `content` of a chunk. -/
def contentOf (json : Json) : Option Text :=
  ((((Json.get json "choices").bind (itemAt · 0)).bind (Json.get · "delta")).bind
    (Json.get · "content")).bind Json.asStr

/-- `finish_reason` of a chunk. -/
def finishReason (json : Json) : Option Text :=
  (((Json.get json "choices").bind (itemAt · 0)).bind (Json.get · "finish_reason")).bind Json.asStr

/-- What `TokenPuller::next` makes of a line. -/
def openaiLine (line : Text) : Found :=
  let line := trim line
  if line = [] then .skip
  else match dataOf line with
    | none => .skip
    | some data =>
      if trim data = "[DONE]".toList then .eos
      else match JsonText.fromStr data with
        | none => .skip
        | some json =>
          match errorMessage json with
          | some message =>
            .error (.other ("OpenAI API error: " ++ String.ofList message))
          | none =>
            let content := (contentOf json).filter (· ≠ [])
            if finishReason json = some "stop".toList ∨ finishReason json = some "length".toList
            then
              match content with
              | some text => .token text true
              | none => .eos
            else match content with
              | some text => .token text false
              | none => .skip

/-- `TokenPuller`: a timeout is read on after. -/
def openai : Wire Unit where
  line _ line := ((), openaiLine line)
  retries e := e.kind = .timedOut ∨ e.kind = .wouldBlock
  failed e := .other ("error reading SSE stream: " ++ e.message)

/-! ## Anthropic -/

/-- The text at a path of two fields. -/
def textIn (json : Json) (outer inner : String) : Option Text :=
  ((Json.get json outer).bind (Json.get · inner)).bind Json.asStr

/-- `event_type`: that of the event line, or else that of the payload. -/
def eventType (pending : Option Text) (json : Json) : Option Text :=
  pending.or ((Json.get json "type").bind Json.asStr)

/-- What `AnthropicPuller::next` makes of a line, with `pending_event_type`. -/
def anthropicLine (pending : Option Text) (line : Text) : Option Text × Found :=
  let line := trim line
  if line = [] then (none, .skip)
  else match (stripPrefix line "event: ".toList).or (stripPrefix line "event:".toList) with
    | some eventType => (some (trim eventType), .skip)
    | none =>
      match dataOf line with
      | none => (pending, .skip)
      | some data =>
        match JsonText.fromStr data with
        | none => (pending, .skip)
        | some json =>
          let eventType := eventType pending json
          if eventType = some "content_block_delta".toList then
            match (textIn json "delta" "text").filter (· ≠ []) with
            | some text => (pending, .token text false)
            | none => (pending, .skip)
          else if eventType = some "message_delta".toList then
            if (textIn json "delta" "stop_reason").isSome then (pending, .eos) else (pending, .skip)
          else if eventType = some "message_stop".toList then (pending, .eos)
          else if eventType = some "error".toList then
            (pending, .error (.other ("Anthropic API error: " ++
              String.ofList ((errorMessage json).getD "unknown Anthropic API error".toList))))
          else (pending, .skip)

/-- `AnthropicPuller`: every error of a read ends it. -/
def anthropic : Wire (Option Text) where
  line := anthropicLine
  retries _ := false
  failed e := .other ("error reading Anthropic SSE stream: " ++ e.message)

/-! ## Error payloads -/

/-- The payload of a line. -/
def payloadOf (line : Text) : Option Json := (dataOf (trim line)).bind JsonText.fromStr

/-- A payload has an error in it, of whatever shape. -/
def carriesError (json : Json) : Bool :=
  match Json.get json "error" with
  | none | some .null => false
  | some _ => true

/-- An error payload in OpenAI's format. -/
def openaiError (line : Text) : Bool :=
  (dataOf (trim line)).map trim ≠ some "[DONE]".toList && (payloadOf line).any carriesError

/-- An error payload in Anthropic's: the event says so, or the type, or there is an error in it. -/
def anthropicError (pending : Option Text) (line : Text) : Bool :=
  (payloadOf line).any fun json =>
    pending = some "error".toList || (Json.get json "type").bind Json.asStr = some "error".toList ||
      carriesError json

/-- The error that a payload is whose puller makes none of it. -/
def payloadError : ExecError := .generation "error payload"

/-- A wire that reads a line as another does, but an error payload always as an error, and that no
error of a read stops. -/
def Wire.exact {σ : Type} (w : Wire σ) (isError : σ → Text → Bool) : Wire σ where
  line s line :=
    match w.line s line with
    | (s', .error e) => (s', .error e)
    | found => if isError s line then (s, .error payloadError) else found
  retries _ := true
  failed := w.failed

/-- An error payload that OpenAI's puller knows: its message is a text. -/
def KnownToOpenai (line : Text) : Prop := (payloadOf line).bind errorMessage ≠ none

/-- An error payload that Anthropic's puller knows: the event says so, or without one the type. -/
def KnownToAnthropic (pending : Option Text) (line : Text) : Prop :=
  (payloadOf line).bind (eventType pending) = some "error".toList

/-- Where a payload is, and that it is not in an empty line. -/
theorem payloadOf_eq_some {line : Text} {json : Json} (h : payloadOf line = some json) :
    trim line ≠ [] ∧
      ∃ data, dataOf (trim line) = some data ∧ JsonText.fromStr data = some json := by
  obtain ⟨data, hdata, hjson⟩ := Option.bind_eq_some_iff.mp h
  refine ⟨fun hnil => ?_, data, hdata, hjson⟩
  rw [hnil] at hdata
  cases hdata

/-- An error payload is an error to OpenAI's puller if it knows it. -/
theorem openaiLine_error_iff {line : Text} (herror : openaiError line = true) :
    (∃ e, openaiLine line = .error e) ↔ KnownToOpenai line := by
  obtain ⟨hdone, hpayload⟩ := Bool.and_eq_true _ _ ▸ herror
  obtain ⟨json, hpayload, -⟩ := Option.any_eq_true _ _ |>.mp hpayload
  obtain ⟨hline, data, hdata, hjson⟩ := payloadOf_eq_some hpayload
  have hdone : trim data ≠ "[DONE]".toList := by simpa [hdata] using hdone
  rw [KnownToOpenai, hpayload, Option.bind_some, openaiLine]
  simp only [if_neg hline, hdata, if_neg hdone, hjson]
  cases hmessage : errorMessage json with
  | some message => simp
  | none =>
    refine ⟨fun ⟨e, he⟩ => ?_, fun h => absurd rfl h⟩
    dsimp only at he
    split at he <;> split at he <;> cases he

omit [JsonText] in
/-- An event line has no data. -/
theorem dataOf_of_event {line rest : Text} (h : stripPrefix line "event:".toList = some rest) :
    dataOf line = none := by
  cases line with
  | nil => rfl
  | cons c line =>
    rw [stripPrefix] at h
    split at h
    case isTrue hpre =>
      have hc : c = 'e' := by
        have heq := (Bool.and_eq_true _ _ ▸ (show (('e' == c) && _) = true from hpre)).1
        exact (of_decide_eq_true heq).symm
      subst hc
      rfl
    case isFalse => cases h

omit [JsonText] in
theorem dataOf_of_event_blank {line rest : Text}
    (h : stripPrefix line "event: ".toList = some rest) : dataOf line = none := by
  rw [stripPrefix] at h
  split at h
  case isTrue hpre =>
    have hshort : "event:".toList.isPrefixOf line = true := by
      rw [ isPrefixOf_iff_prefix] at hpre ⊢
      exact (show "event:".toList <+: "event: ".toList from ⟨[' '], rfl⟩).trans hpre
    have hstrip : stripPrefix line "event:".toList = some (line.drop 6) := by
      rw [stripPrefix, if_pos hshort]
      rfl
    exact dataOf_of_event hstrip
  case isFalse => cases h

/-- An error payload is an error to Anthropic's puller if it knows it. -/
theorem anthropicLine_error_iff {pending : Option Text} {line : Text}
    (herror : anthropicError pending line = true) :
    (∃ e, (anthropicLine pending line).2 = .error e) ↔ KnownToAnthropic pending line := by
  obtain ⟨json, hpayload, -⟩ := Option.any_eq_true _ _ |>.mp herror
  obtain ⟨hline, data, hdata, hjson⟩ := payloadOf_eq_some hpayload
  have hevent : (stripPrefix (trim line) "event: ".toList).or
      (stripPrefix (trim line) "event:".toList) = none := by
    cases hblank : stripPrefix (trim line) "event: ".toList with
    | some rest => simp [dataOf_of_event_blank hblank] at hdata
    | none =>
      cases hstrip : stripPrefix (trim line) "event:".toList with
      | some rest => simp [dataOf_of_event hstrip] at hdata
      | none => rfl
  rw [KnownToAnthropic, hpayload, Option.bind_some, anthropicLine]
  simp only [if_neg hline, hevent, hdata, hjson]
  generalize eventType pending json = event
  constructor
  · rintro ⟨e, he⟩
    split at he
    case isTrue => split at he <;> cases he
    split at he
    case isTrue => split at he <;> cases he
    split at he
    case isTrue => cases he
    split at he
    case isTrue herror => exact herror
    case isFalse => cases he
  · rintro rfl
    exact ⟨_, rfl⟩

omit [JsonText] in
/-- A wire agrees with the exact one on a line but for an error payload that it makes no error
of. -/
theorem line_eq_exact_iff {σ : Type} (w : Wire σ) (isError : σ → Text → Bool) (s : σ)
    (line : Text) : w.line s line = (w.exact isError).line s line ↔
      (isError s line = true → ∃ e, (w.line s line).2 = .error e) := by
  rcases hline : w.line s line with ⟨s', found⟩
  simp only [Wire.exact, hline]
  cases found with
  | error e => simp
  | _ =>
    cases isError s line with
    | true => simp
    | false => simp

omit [JsonText] in
/-- The exact wire is sharper. -/
theorem exact_sharpens {σ : Type} {w : Wire σ} (isError : σ → Text → Bool)
    (hline : ∀ s line, (w.line s line).2 ≠ .error payloadError)
    (hfailed : ∀ e, w.failed e ≠ payloadError) :
    (w.exact isError).Sharpens w (· = payloadError) where
  failed := rfl
  retries _ := rfl
  line s line := by
    by_cases hagree : isError s line = true → ∃ e, (w.line s line).2 = .error e
    · exact .inl ((line_eq_exact_iff w isError s line).mpr hagree)
    obtain ⟨herror, hnone⟩ := Classical.not_imp.mp hagree
    refine .inr ⟨payloadError, rfl, ?_⟩
    rcases hfound : w.line s line with ⟨s', found⟩
    simp only [Wire.exact, hfound, herror, if_true]
    cases found with
    | error e => exact absurd ⟨e, by rw [hfound]⟩ hnone
    | _ => rfl
  not_own s line e he hown := hline s line (hown ▸ he)
  failed_not_own e := hfailed e

/-- An error that OpenAI's puller finds. -/
theorem openaiLine_says {line : Text} {e : ExecError} (h : openaiLine line = .error e) :
    ∃ message, e = .other ("OpenAI API error: " ++ message) := by
  rw [openaiLine] at h
  dsimp only at h
  split at h
  case isTrue => cases h
  split at h
  case h_1 => cases h
  split at h
  case isTrue => cases h
  split at h
  case h_1 => cases h
  split at h
  case h_1 =>
    cases h
    exact ⟨_, rfl⟩
  case h_2 => split at h <;> split at h <;> cases h

/-- An error that Anthropic's puller finds. -/
theorem anthropicLine_says {pending : Option Text} {line : Text} {e : ExecError}
    (h : (anthropicLine pending line).2 = .error e) :
    ∃ message, e = .other ("Anthropic API error: " ++ message) := by
  rw [anthropicLine] at h
  dsimp only at h
  split at h
  case isTrue => cases h
  split at h
  case h_1 => cases h
  split at h
  case h_1 => cases h
  split at h
  case h_1 => cases h
  split at h
  case isTrue => split at h <;> cases h
  split at h
  case isTrue => split at h <;> cases h
  split at h
  case isTrue => cases h
  split at h
  case isTrue =>
    cases h
    exact ⟨_, rfl⟩
  case isFalse => cases h

/-! ## Whole streams -/

/-- A read that times out. -/
structure IoError.IsTimeout (e : IoError) : Prop where
  kind : e.kind = .timedOut ∨ e.kind = .wouldBlock
  message : e.message ≠ IoError.invalidUtf8.message

/-- What the reader of a stream returns, by what arrives. -/
def readsOf (arrivals : List (Arrival UInt8 IoError)) : List (LineRead UInt8 IoError) :=
  lineReads 10 [] arrivals

/-- The lines of a stream. -/
def wholeLines (arrivals : List (Arrival UInt8 IoError)) : List (LineRead UInt8 IoError) :=
  (splitInclusive 10 (arrived arrivals)).map .line

/-- A stream is read exactly: as by the exact wire in its lines. -/
structure ReadsExactly {σ : Type} (w : Wire σ) (isError : σ → Text → Bool) (s : σ)
    (maxTokens : Option Nat) (arrivals : List (Arrival UInt8 IoError)) : Prop where
  /-- Any number of pulls delivers what the lines say, and no more. -/
  pulls : ∀ n, (({ reader := readsOf arrivals, maxTokens, state := s } : Puller σ).pulls w
    (List.replicate n quiet)).filterMap id =
      (events (w.exact isError) maxTokens s (wholeLines arrivals)).take n
  /-- That is texts and one end. -/
  shape : ∃ (texts : List Text) (end_ : Event),
    events (w.exact isError) maxTokens s (wholeLines arrivals) = texts.map tokenOf ++ [end_] ∧
      (end_ = .ok .eos ∨ ∃ e, end_ = .error e)
  /-- With an error payload before it, it is an error. -/
  errors : ∀ s' bytes text,
    (s', .line bytes) ∈ lookedAt (w.exact isError) maxTokens s (wholeLines arrivals) →
      fromUtf8 bytes = some text → isError s' text.toList = true →
        ∃ e, (events (w.exact isError) maxTokens s (wholeLines arrivals)).getLast? =
          some (.error e)

section
variable {σ : Type} {w : Wire σ} {isError : σ → Text → Bool} {s : σ} {maxTokens : Option Nat}
  {arrivals : List (Arrival UInt8 IoError)}

omit [JsonText] in
/-- A puller delivers what the reader's lines say: a stream is read exactly if these say the same as
its own. -/
theorem readsExactly_iff : ReadsExactly w isError s maxTokens arrivals ↔
    events w maxTokens s (readsOf arrivals) =
      events (w.exact isError) maxTokens s (wholeLines arrivals) := by
  have hpulls (n : Nat) : (({ reader := readsOf arrivals, maxTokens, state := s } :
      Puller σ).pulls w (replicate n quiet)).filterMap id =
        (events w maxTokens s (readsOf arrivals)).take n := by
    rw [Puller.pulls_quiet]
    rfl
  constructor
  · intro hexact
    generalize hn : max (events w maxTokens s (readsOf arrivals)).length
      (events (w.exact isError) maxTokens s (wholeLines arrivals)).length = n
    have htake := hexact.pulls n
    rwa [hpulls, take_of_length_le (by omega), take_of_length_le (by omega)] at htake
  · intro heq
    refine ⟨fun n => by rw [hpulls, heq], ?_, fun s' bytes text hmem htext herror => ?_⟩
    · rw [events]
      split
      · exact ⟨[], _, rfl, .inl rfl⟩
      · exact reading_shape _ _ _ _ _
    · rw [lookedAt] at hmem
      rw [events]
      split at hmem
      case isTrue => cases hmem
      case isFalse hreached =>
        rw [if_neg hreached]
        have hfound : ∃ e, ((w.exact isError).line s' text.toList).2 = .error e := by
          rcases hline : w.line s' text.toList with ⟨s'', found⟩
          simp only [Wire.exact, hline, herror, if_true]
          cases found <;> exact ⟨_, rfl⟩
        obtain ⟨e, hfound⟩ := hfound
        exact ⟨e, getLast?_reading_of_error _ _ hmem htext hfound⟩

omit [JsonText] in
/-- That is so if the wire agrees with the exact one on all that is looked at; and only then, if it
reads on after errors of reads only where nothing is lost, and tells of the others what no lines
say. -/
theorem readsExactly_iff_agrees (hline : ∀ s line, (w.line s line).2 ≠ .error payloadError)
    (hfailed : ∀ e, w.failed e ≠ payloadError)
    (herrors : ∀ s' e lost,
      (s', .error e lost) ∈ lookedAt (w.exact isError) maxTokens s (readsOf arrivals) →
        (w.retries e ∧ lost = []) ∨ (w.retries e = false ∧
          ∀ s produced (lines : List (List UInt8)),
            reading (w.exact isError) maxTokens s produced (lines.map .line) ≠
              [.error (w.failed e)])) :
    ReadsExactly w isError s maxTokens arrivals ↔
      ∀ x ∈ lookedAt (w.exact isError) maxTokens s (readsOf arrivals),
        w.Agrees (w.exact isError) x := by
  have hfollows : Follows (readsOf arrivals) (splitInclusive 10 (arrived arrivals)) :=
    lineReads_follows [] not_mem_nil arrivals
  have hsharp := exact_sharpens isError hline hfailed
  rw [readsExactly_iff, events, events, lookedAt] at *
  by_cases hreached : reached maxTokens 0
  · simp [hreached]
  · simp only [if_neg hreached] at herrors ⊢
    exact ⟨agrees_of_reading_eq maxTokens hsharp hfollows herrors,
      reading_eq maxTokens hsharp hfollows⟩

end

omit [JsonText] in
/-- An error that is looked at is one of a read. -/
theorem error_mem_of_mem_lookedAt {σ : Type} {w : Wire σ} {s₀ s : σ} {maxTokens : Option Nat}
    {arrivals : List (Arrival UInt8 IoError)} {e : IoError} {lost : List UInt8}
    (hmem : (s, .error e lost) ∈ lookedAt w maxTokens s₀ (readsOf arrivals)) :
    .error e ∈ arrivals := by
  rw [lookedAt] at hmem
  split at hmem
  · cases hmem
  · exact error_mem_of_mem_lineReads (mem_of_mem_looked _ _ hmem)

/-- The lines that are looked at before the end. -/
def LineLookedAt {σ : Type} (w : Wire σ) (s₀ : σ) (maxTokens : Option Nat)
    (arrivals : List (Arrival UInt8 IoError)) (s : σ) (line : Text) : Prop :=
  ∃ bytes text, (s, .line bytes) ∈ lookedAt w maxTokens s₀ (readsOf arrivals) ∧
    fromUtf8 bytes = some text ∧ line = text.toList

/-- OpenAI's puller agrees on all that is looked at if nothing is lost and if it knows each error
payload. -/
theorem openai_agrees_iff (maxTokens : Option Nat) {arrivals : List (Arrival UInt8 IoError)}
    (htimeouts : ∀ e, .error e ∈ arrivals → e.IsTimeout) :
    (∀ x ∈ lookedAt (openai.exact fun _ => openaiError) maxTokens () (readsOf arrivals),
      openai.Agrees (openai.exact fun _ => openaiError) x) ↔
      (∀ s e lost, (s, .error e lost) ∈
        lookedAt (openai.exact fun _ => openaiError) maxTokens () (readsOf arrivals) → lost = []) ∧
        ∀ s line, LineLookedAt (openai.exact fun _ => openaiError) () maxTokens arrivals s line →
          openaiError line = true → KnownToOpenai line := by
  have hline (line : Text) : openai.line () line =
      (openai.exact fun _ => openaiError).line () line ↔
        (openaiError line = true → KnownToOpenai line) := by
    rw [line_eq_exact_iff]
    exact forall_congr' openaiLine_error_iff
  constructor
  · intro hagree
    refine ⟨fun s e lost hmem => (hagree _ hmem).2, ?_⟩
    rintro s line ⟨bytes, text, hmem, htext, rfl⟩
    exact (hline _).mp (hagree _ hmem text htext)
  · rintro ⟨hlost, hknown⟩ ⟨s, r⟩ hmem
    cases r with
    | error e lost =>
      exact ⟨decide_eq_true (htimeouts e (error_mem_of_mem_lookedAt hmem)).kind,
        hlost s e lost hmem⟩
    | line bytes =>
      intro text htext
      exact (hline _).mpr (hknown s _ ⟨bytes, text, hmem, htext, rfl⟩)

/-- Anthropic's agrees if no read fails and if it knows each error payload. -/
theorem anthropic_agrees_iff (maxTokens : Option Nat) (arrivals : List (Arrival UInt8 IoError)) :
    (∀ x ∈ lookedAt (anthropic.exact anthropicError) maxTokens none (readsOf arrivals),
      anthropic.Agrees (anthropic.exact anthropicError) x) ↔
      (∀ s e lost, (s, .error e lost) ∉
        lookedAt (anthropic.exact anthropicError) maxTokens none (readsOf arrivals)) ∧
        ∀ pending line,
          LineLookedAt (anthropic.exact anthropicError) none maxTokens arrivals pending line →
            anthropicError pending line = true → KnownToAnthropic pending line := by
  have hline (pending : Option Text) (line : Text) : anthropic.line pending line =
      (anthropic.exact anthropicError).line pending line ↔
        (anthropicError pending line = true → KnownToAnthropic pending line) := by
    rw [line_eq_exact_iff]
    exact forall_congr' anthropicLine_error_iff
  constructor
  · intro hagree
    refine ⟨fun s e lost hmem => ?_, ?_⟩
    · cases (hagree _ hmem).1
    · rintro s line ⟨bytes, text, hmem, htext, rfl⟩
      exact (hline _ _).mp (hagree _ hmem text htext)
  · rintro ⟨hnone, hknown⟩ ⟨s, r⟩ hmem
    cases r with
    | error e lost => exact absurd hmem (hnone s e lost)
    | line bytes =>
      intro text htext
      exact (hline _ _).mpr (hknown s _ ⟨bytes, text, hmem, htext, rfl⟩)

/-- No lines say what Anthropic's puller says of a read that times out. -/
theorem timeout_ne_reading {e : IoError} (htimeout : e.IsTimeout) (maxTokens : Option Nat)
    (s : Option Text) (produced : Nat) (lines : List (List UInt8)) :
    reading (anthropic.exact anthropicError) maxTokens s produced (lines.map .line) ≠
      [.error (anthropic.failed e)] := by
  refine reading_lines_ne maxTokens (fun s line heq => ?_) (fun heq => ?_) s produced lines
  · have hfound : (anthropic.line s line).2 = .error (anthropic.failed e) := by
      rcases (exact_sharpens anthropicError (w := anthropic) (fun s line h => by
        obtain ⟨message, h⟩ := anthropicLine_says h
        cases h) (fun e h => by cases h)).line s line with hsame | ⟨e', rfl, hown⟩
      · rwa [hsame]
      · rw [hown] at heq
        cases heq
    obtain ⟨message, hsays⟩ := anthropicLine_says hfound
    have htext := congrArg String.toList (ExecError.other.inj hsays)
    rw [String.toList_append, String.toList_append] at htext
    have hhead : 'e' = 'A' := (cons.inj htext).1
    exact absurd hhead (by decide)
  · refine htimeout.message ?_
    have htext := congrArg String.toList (ExecError.other.inj heq)
    rw [String.toList_append, String.toList_append] at htext
    exact (String.toList_inj.mp (append_cancel_left htext)).symm

/-- **A stream is read exactly** by OpenAI's puller, if no read that is looked at times out in the
middle of a line, just when it knows each error payload that is; and by Anthropic's just when no
read that is looked at times out and it knows each error payload. -/
theorem streams_read_exactly (maxTokens : Option Nat) (arrivals : List (Arrival UInt8 IoError))
    (htimeouts : ∀ e, .error e ∈ arrivals → e.IsTimeout) :
    ((∀ s e lost, (s, .error e lost) ∈
        lookedAt (openai.exact fun _ => openaiError) maxTokens () (readsOf arrivals) → lost = []) →
      (ReadsExactly openai (fun _ => openaiError) () maxTokens arrivals ↔
        ∀ s line, LineLookedAt (openai.exact fun _ => openaiError) () maxTokens arrivals s line →
          openaiError line = true → KnownToOpenai line)) ∧
    (ReadsExactly anthropic anthropicError none maxTokens arrivals ↔
      (∀ s e lost, (s, .error e lost) ∉
        lookedAt (anthropic.exact anthropicError) maxTokens none (readsOf arrivals)) ∧
        ∀ pending line,
          LineLookedAt (anthropic.exact anthropicError) none maxTokens arrivals pending line →
            anthropicError pending line = true → KnownToAnthropic pending line) := by
  have hread {σ : Type} {w : Wire σ} {s₀ s : σ} {e : IoError} {lost : List UInt8}
      (hmem : (s, .error e lost) ∈ lookedAt w maxTokens s₀ (readsOf arrivals)) : e.IsTimeout :=
    htimeouts e (error_mem_of_mem_lookedAt hmem)
  constructor
  · intro hlost
    rw [readsExactly_iff_agrees, openai_agrees_iff maxTokens htimeouts]
    · exact and_iff_right hlost
    · intro s line h
      obtain ⟨message, h⟩ := openaiLine_says h
      cases h
    · exact fun e h => by cases h
    · exact fun s e lost hmem => .inl ⟨decide_eq_true (hread hmem).kind, hlost s e lost hmem⟩
  · rw [readsExactly_iff_agrees, anthropic_agrees_iff]
    · intro s line h
      obtain ⟨message, h⟩ := anthropicLine_says h
      cases h
    · exact fun e h => by cases h
    · exact fun s e lost hmem => .inr ⟨rfl, timeout_ne_reading (hread hmem) maxTokens⟩

end

/-! ## Samples -/

/-- What a server sends, as one piece. -/
def piece (text : String) : Arrival UInt8 IoError :=
  match utf8 text.toList with
  | [] => .interrupted
  | first :: more => .data first more

/-- A read that times out. -/
def timedOut : IoError := ⟨.timedOut, "timed out"⟩

theorem timedOut_isTimeout : timedOut.IsTimeout := ⟨.inl rfl, by decide⟩

/-- A chunk with the text `Hello`. -/
abbrev helloChunk : String :=
  "\x7b\"choices\":[\x7b\"delta\":\x7b\"content\":\"Hello\"\x7d\x7d]\x7d"

/-- The values of the samples. -/
abbrev sampleValues : JsonText := JsonText.table [
  (helloChunk,
    .object [("choices", .array [.object [("delta", .object [("content", .string "Hello")])]])]),
  ("\x7b\"error\":\"overloaded\"\x7d", .object [("error", .string "overloaded")])]

/-- A text, then a timeout between two lines, then the end. -/
theorem hello_read :
    letI := sampleValues
    ReadsExactly openai (fun _ => openaiError) () none
      [piece ("data: " ++ helloChunk ++ "\n"), .error timedOut, piece "data: [DONE]\n"] := by
  let _ := sampleValues
  have hlooked : lookedAt (openai.exact fun _ => openaiError) none ()
      (readsOf [piece ("data: " ++ helloChunk ++ "\n"), .error timedOut, piece "data: [DONE]\n"]) =
        [((), .line (utf8 ("data: " ++ helloChunk ++ "\n").toList)), ((), .error timedOut []),
          ((), .line (utf8 "data: [DONE]\n".toList))] := rfl
  refine ((streams_read_exactly none _ ?_).1 ?_).mpr ?_
  · intro e hmem
    rcases List.mem_cons.mp hmem with heq | hmem
    · cases heq
    rcases List.mem_cons.mp hmem with heq | hmem
    · cases heq
      exact timedOut_isTimeout
    · cases List.mem_singleton.mp hmem
  · intro s e lost hmem
    rw [hlooked] at hmem
    simp only [List.mem_cons, Prod.mk.injEq, reduceCtorEq, and_false, false_or,
      List.not_mem_nil, or_false, LineRead.error.injEq] at hmem
    exact hmem.2.2
  · rintro s line ⟨bytes, text, hmem, htext, rfl⟩ herror
    rw [hlooked] at hmem
    rcases List.mem_cons.mp hmem with heq | hmem
    · cases heq
      cases htext
      cases herror
    rcases List.mem_cons.mp hmem with heq | hmem
    · cases heq
    · cases List.mem_singleton.mp hmem
      cases htext
      cases herror

/-- OpenAI's puller ends at an error whose message is no text, and loses a text in which a read
times out; Anthropic's ends with an error where a read times out. -/
theorem streams_cut_short :
    letI := sampleValues
    ¬ ReadsExactly openai (fun _ => openaiError) () none
      [piece "data: \x7b\"error\":\"overloaded\"\x7d\n"] ∧
    ¬ ReadsExactly openai (fun _ => openaiError) () none
      [piece "data: \x7b\"choices\":[\x7b\"delta\":\x7b\"content\":\"Hel", .error timedOut,
        piece "lo\"\x7d\x7d]\x7d\n"] ∧
    ¬ ReadsExactly anthropic anthropicError none none [.error timedOut] := by
  let _ := sampleValues
  refine ⟨fun hexact => ?_, fun hexact => ?_, fun hexact => ?_⟩
  · have hends : ([.ok .eos] : List Event) = [.error payloadError] := hexact.pulls 1
    cases hends
  · have hends : ([.ok .eos] : List Event) = [tokenOf "Hello".toList] := hexact.pulls 1
    cases hends
  · have hends : ([.error (anthropic.failed timedOut)] : List Event) = [.ok .eos] := hexact.pulls 1
    cases hends

end Gen2.ExternalApi
