import Gen2.Decision.Decode
import Gen2.Decision.Rows
import Gen2.Lib.Windows

/-!
# Scanning a long state

`decision/long.rs`: a state that has more tokens than fit is cut into windows, each is asked about
on its own, and of the answers to a question the one with the highest score is taken.

* **Windows.**  `scan` takes as many of them as `windowCount` says, and refuses more than its limit.
* **Runs.**  A `Runner` answers every question it is given; `OnnxBackend.runner` is the one there
  is.
* **Answers.**  `choose` keeps an answer until there is one with a higher score, so it keeps the
  first of the best: `scanWindows_best`.

`scan_covers` is the result.  It has a state without tokens as its exception, whose one window is
empty: `scan_empty`.
-/

namespace Gen2.Decision

open Lib List

/-- `LongStateOptions`. -/
structure LongStateOptions where
  windowTokens : Option Nat
  strideTokens : Option Nat
  maxWindows : Nat

/-- `SequenceEnvelope`, by what is read of it. -/
structure SequenceEnvelope where
  maxLen : Nat
  headMaxLen : Nat
  maxOptions : Nat
  maxBatch : Nat

/-- The answers to the questions of a request, with their names. -/
abbrev Answers (F : Type) := List (String × Answer F)

/-- `WindowAnswer`. -/
structure WindowAnswer (F : Type) where
  id : String
  answer : Answer F
  windowIndex : Nat
  tokenStart : Nat
  tokenEnd : Nat

/-- `LongDecisionResult`, without its timings. -/
structure LongDecisionResult (F : Type) where
  answers : List (WindowAnswer F)
  windows : List (Answers F)
  stateTokens : Nat
  windowTokens : Nat
  strideTokens : Nat

/-! ## One run -/

/-- What answers a request. -/
structure Runner (F : Type) where
  run : DecisionRequest → EncodeOptions → Except DecisionError (Answers F)
  answersAll : ∀ request encode answers, run request encode = .ok answers →
    answers.map Prod.fst = request.questions.map Prod.fst

/-- The model's session: for the rows of a batch the logits of their options, and of the action.  An
output that has not a row for each of them is refused, and so is a run that has been cancelled. -/
structure Session (L : Type) where
  forward : List EncodedQuestion → Except DecisionError (List (List L × (L × L)))
  rows : ∀ chunk out, forward chunk = .ok out → out.length = chunk.length

variable {L F : Type} [LinearOrder F] [Formatting]

/-- `OnnxBackend`, by what a run reads. -/
structure OnnxBackend (L F : Type) where
  floats : Floats L F
  lowercase : String → String
  special : SpecialTokens
  tokenize : Text → Except DecisionError (List Int)
  envelope : SequenceEnvelope
  calibration : Calibration F
  session : Session L

/-- `run_batch`, for one request. -/
def OnnxBackend.runBatch (backend : OnnxBackend L F) (language : Option String)
    (request : DecisionRequest) (encode : EncodeOptions) : Except DecisionError (Answers F) := do
  if backend.envelope.maxLen < encode.maxLen ∨ backend.envelope.headMaxLen < encode.headMaxLen then
    .error (.resourceLimit "requested sequence budget exceeds the exported envelope")
  else
    let rows ← Decision.encode request encode backend.special backend.tokenize
    if rows.any (backend.envelope.maxOptions < ·.markerPos.length) then
      .error (.resourceLimit "option count exceeds the exported envelope")
    else
      let answers ← ((rows.zip request.questions).toChunks backend.envelope.maxBatch).mapM
        fun chunk => do
          let out ← backend.session.forward (chunk.map Prod.fst)
          (chunk.zip out).mapM fun ((row, _, question), logits, action) => do
            let answer ← backend.calibration.decode backend.floats backend.lowercase question logits
              action language
            return (row.id, answer)
      return answers.flatten

/-- The rows have the names of the questions. -/
theorem encode_ids {request : DecisionRequest} {options : EncodeOptions} {special : SpecialTokens}
    {tokenize : Text → Except DecisionError (List Int)} {rows : List EncodedQuestion}
    (h : encode request options special tokenize = .ok rows) :
    rows.map EncodedQuestion.id = request.questions.map Prod.fst := by
  refine (map_eq_of_forall₂ ((encode_ok h).imp fun asked row ⟨_, _, _, _, hrow⟩ => ?_)).symm
  obtain ⟨head, _, spans, -, -, -, hrow⟩ := encodeQuestion_ok hrow
  exact (encodeRow_id ⟨head, spans, _⟩ hrow).symm

variable {answers : Answers F}

/-- A batch answers its rows. -/
theorem map_fst_chunk {backend : OnnxBackend L F} {language : Option String}
    {chunk : List (EncodedQuestion × String × Question)}
    (h : (do
      let out ← backend.session.forward (chunk.map Prod.fst)
      (chunk.zip out).mapM fun ((row, _, question), logits, action) => do
        let answer ← backend.calibration.decode backend.floats backend.lowercase question logits
          action language
        return (row.id, answer) : Except DecisionError (Answers F)) = .ok answers) :
    answers.map Prod.fst = chunk.map fun (row, _) => row.id := by
  obtain ⟨out, hout, h⟩ := bind_eq_ok.1 h
  have hlength := backend.session.rows _ _ hout
  rw [length_map] at hlength
  have hids : (chunk.zip out).map (fun x => x.1.1.id) = answers.map Prod.fst := by
    refine map_eq_of_forall₂ ((mapM_eq_ok.1 h).imp fun asked answer hanswer => ?_)
    obtain ⟨_, -, hanswer⟩ := bind_eq_ok.1 hanswer
    cases hanswer
    rfl
  have hzip : ((chunk.zip out).map Prod.fst).map (fun x => x.1.id) = chunk.map fun x => x.1.id := by
    rw [map_fst_zip hlength.ge]
  rw [← hids, ← hzip, map_map]
  rfl

/-- A run of the model answers every question. -/
def OnnxBackend.runner (backend : OnnxBackend L F) (language : Option String) : Runner F where
  run := backend.runBatch language
  answersAll request encode answers h := by
    obtain ⟨-, h⟩ := ite_error_eq_ok.1 h
    obtain ⟨rows, hrows, h⟩ := bind_eq_ok.1 h
    obtain ⟨-, h⟩ := ite_error_eq_ok.1 h
    obtain ⟨batches, hbatches, h⟩ := bind_eq_ok.1 h
    cases h
    have hids := encode_ids hrows
    have hlength : rows.length = request.questions.length := by
      simpa using congrArg List.length hids
    have hmap := map_eq_of_forall₂ (f := List.map fun x : EncodedQuestion × String × Question =>
      x.1.id) (g := List.map Prod.fst)
      ((mapM_eq_ok.1 hbatches).imp fun _ _ hbatch => (map_fst_chunk hbatch).symm)
    rw [List.map_flatten, ← hmap, ← List.map_flatten, flatten_toChunks, ← hids]
    have hzip : ((rows.zip request.questions).map Prod.fst).map EncodedQuestion.id =
        rows.map EncodedQuestion.id := by
      rw [List.map_fst_zip hlength.le]
    rw [← hzip, List.map_map]
    rfl

/-! ## The scan -/

/-- `decode_state`, where `decode` is the tokenizer's. -/
def decodeState (cleanupSpaces : Bool) (decode : List Int → Except DecisionError Text)
    (ids : List Int) : Except DecisionError String := do
  let text ← decode ids
  if cleanupSpaces then
    return String.ofList ([(" .", "."), (" ?", "?"), (" !", "!"), (" ,", ","), (" ' ", "'"),
      (" n't", "n't"), (" 'm", "'m"), (" 's", "'s"), (" 've", "'ve"), (" 're", "'re")].foldl
        (fun text (before, later) => replaceAll before.toList later.toList text) text)
  else return String.ofList text

/-- `scan_encode`. -/
def scanEncode (envelope : SequenceEnvelope) (encode : Option EncodeOptions) :
    Except DecisionError EncodeOptions :=
  let encode := encode.getD ⟨envelope.maxLen, envelope.headMaxLen, .reject⟩
  if envelope.maxLen < encode.maxLen ∨ envelope.headMaxLen < encode.headMaxLen then
    .error (.resourceLimit "requested sequence budget exceeds the exported envelope")
  else .ok encode

/-- `score`. -/
def score (answer : Answer F) : F :=
  match answer.value with
  | .yesNo probabilityTrue => probabilityTrue
  | _ => answer.answerConfidence

/-- What is taken of the answers of the first window. -/
def first (span : Nat × Nat) (answers : Answers F) : List (WindowAnswer F) :=
  answers.map fun (id, answer) => ⟨id, answer, 0, span.1, span.2⟩

/-- What is taken when window `i` has been asked about.  More answers than there were in the first
window panic; a runner gives as many. -/
def choose (i : Nat) (span : Nat × Nat) : Answers F → List (WindowAnswer F) → List (WindowAnswer F)
  | (id, answer) :: answers, taken :: selected =>
    (if score taken.answer < score answer then ⟨id, answer, i, span.1, span.2⟩ else taken) ::
      choose i span answers selected
  | [], selected => selected
  | _ :: _, [] => []

/-- What `scan` is given besides the request. -/
structure Scanner (F : Type) where
  special : SpecialTokens
  tokenize : Text → Except DecisionError (List Int)
  decodeState : List Int → Except DecisionError String
  envelope : SequenceEnvelope
  runner : Runner F
  /-- Whether the scan has been cancelled, at each of the places where it looks. -/
  check : Nat → Except DecisionError Unit

/-- The state of window `i`, which is the whole state where there is but one. -/
def Scanner.windowState (scanner : Scanner F) (request : DecisionRequest) (tokens : List Int)
    (width stride i : Nat) : Except DecisionError DecisionState :=
  if windowCount tokens.length width stride = 1 then .ok request.state
  else do
    let (start, stop) := window tokens.length width stride i
    return .text (← scanner.decodeState ((tokens.take stop).drop start))

/-- The answers of the first `n` windows, and what is taken of them. -/
def Scanner.scanWindows (scanner : Scanner F) (request : DecisionRequest) (encode : EncodeOptions)
    (tokens : List Int) (width stride : Nat) :
    Nat → Except DecisionError (List (Answers F) × List (WindowAnswer F))
  | 0 => .ok ([], [])
  | i + 1 => do
    let (windows, selected) ← scanner.scanWindows request encode tokens width stride i
    scanner.check (i + 2)
    let state ← scanner.windowState request tokens width stride i
    let answers ← scanner.runner.run ⟨state, request.questions⟩ encode
    let span := window tokens.length width stride i
    return (windows ++ [answers],
      if i = 0 then first span answers else choose i span answers selected)

/-- `scan`. -/
def Scanner.scan (scanner : Scanner F) (request : DecisionRequest) (scan : LongStateOptions)
    (encode : Option EncodeOptions) : Except DecisionError (LongDecisionResult F) := do
  scanner.check 0
  if request.questions.isEmpty then .ok ⟨[], [], 0, 0, 0⟩
  else
    let encode ← scanEncode scanner.envelope encode
    -- the caller's policy cannot make a scan lose evidence
    let encode := { encode with overflow := .reject }
    let heads ← Decision.encode ⟨.text "", request.questions⟩ encode scanner.special scanner.tokenize
    let room := (heads.map fun h => encode.maxLen - h.inputIds.length).min?.getD encode.maxLen
    let requested := scan.windowTokens.getD (max (encode.maxLen - (encode.headMaxLen + 8)) 64)
    let width := min requested room
    let stride := scan.strideTokens.getD (max (width / 2) 1)
    if width = 0 ∨ stride = 0 ∨ width < stride ∨ scan.maxWindows = 0 then
      .error (.invalidRequest "long-state window, stride or limit is invalid")
    else
      let text ← request.state.serialize
      let tokens ← scanner.tokenize (scanner.special.clean text)
      scanner.check 1
      let count := windowCount tokens.length width stride
      if scan.maxWindows < count then
        .error (.resourceLimit ("scan requires " ++ Nat.repr count ++ " windows; limit is " ++
          Nat.repr scan.maxWindows))
      else
        let (windows, selected) ← scanner.scanWindows request encode tokens width stride count
        return ⟨selected, windows, tokens.length, width, stride⟩

/-! ## What is taken -/

variable {selected : List (WindowAnswer F)} {taken : WindowAnswer F}

omit [Formatting] in
theorem getElem?_choose {i : Nat} {span : Nat × Nat} (hlength : answers.length = selected.length)
    {j : Nat} (h : (choose i span answers selected)[j]? = some taken) :
    ∃ id answer before, answers[j]? = some (id, answer) ∧ selected[j]? = some before ∧
      taken = if score before.answer < score answer then ⟨id, answer, i, span.1, span.2⟩
        else before := by
  induction answers generalizing selected j with
  | nil =>
    cases selected with
    | nil => cases h
    | cons => cases hlength
  | cons asked answers ih =>
    cases selected with
    | nil => cases hlength
    | cons before selected =>
      cases j with
      | zero =>
        cases h
        exact ⟨asked.1, asked.2, before, rfl, rfl, rfl⟩
      | succ j => exact ih (Nat.succ.inj hlength) h

omit [Formatting] in
theorem map_id_choose {i : Nat} {span : Nat × Nat}
    (h : answers.map Prod.fst = selected.map WindowAnswer.id) :
    (choose i span answers selected).map WindowAnswer.id = answers.map Prod.fst := by
  induction answers generalizing selected with
  | nil => exact h.symm
  | cons asked answers ih =>
    cases selected with
    | nil => cases h
    | cons before selected =>
      obtain ⟨hid, htail⟩ := cons.inj h
      rw [choose, map_cons, map_cons, ih htail]
      split
      · rfl
      · exact congrArg (· :: _) hid.symm

/-- `taken` is an answer to question `j` with the highest score over all windows, and the first. -/
structure Best (span : Nat → Nat × Nat) (windows : List (Answers F)) (j : Nat)
    (taken : WindowAnswer F) : Prop where
  asked : ∃ answers, windows[taken.windowIndex]? = some answers ∧
    answers[j]? = some (taken.id, taken.answer)
  span : span taken.windowIndex = (taken.tokenStart, taken.tokenEnd)
  highest : ∀ (i : Nat) answers id answer, windows[i]? = some answers →
    answers[j]? = some (id, answer) → score answer ≤ score taken.answer
  first : ∀ (i : Nat) answers id answer, windows[i]? = some answers →
    answers[j]? = some (id, answer) → i < taken.windowIndex → score answer < score taken.answer

omit [Formatting] in
theorem best_first {span : Nat → Nat × Nat} {j : Nat}
    (h : (first (span 0) answers)[j]? = some taken) : Best span [answers] j taken := by
  rw [Decision.first, getElem?_map, Option.map_eq_some_iff] at h
  obtain ⟨⟨id, answer⟩, hj, rfl⟩ := h
  refine ⟨⟨answers, rfl, hj⟩, rfl, ?_, fun i _ _ _ _ _ hlt => absurd hlt (Nat.not_lt_zero i)⟩
  intro i answers' id' answer' hi hj'
  cases i with
  | zero =>
    cases hi
    cases hj.symm.trans hj'
    exact le_rfl
  | succ i => cases hi

omit [Formatting] in
/-- One window more. -/
theorem best_choose {span : Nat → Nat × Nat} {windows : List (Answers F)} {j : Nat}
    (hlength : answers.length = selected.length)
    (hbest : ∀ before, selected[j]? = some before → Best span windows j before)
    (h : (choose windows.length (span windows.length) answers selected)[j]? = some taken) :
    Best span (windows ++ [answers]) j taken := by
  obtain ⟨id, answer, before, hanswer, hbefore, rfl⟩ := getElem?_choose hlength h
  have hold := hbest before hbefore
  have hcases : ∀ {i : Nat} {answers' : Answers F}, (windows ++ [answers])[i]? = some answers' →
      windows[i]? = some answers' ∧ i < windows.length ∨ answers' = answers ∧ i = windows.length := by
    intro i answers' hi
    rcases Nat.lt_or_ge i windows.length with hlt | hge
    · rw [getElem?_append_left hlt] at hi
      exact .inl ⟨hi, hlt⟩
    rw [getElem?_append_right hge, getElem?_singleton] at hi
    split at hi
    · cases hi
      exact .inr ⟨rfl, by omega⟩
    · cases hi
  split
  next hlt =>
    have hall : ∀ (i : Nat) answers' id' answer', windows[i]? = some answers' →
        answers'[j]? = some (id', answer') → score answer' < score answer :=
      fun i _ _ _ hi hj => (hold.highest i _ _ _ hi hj).trans_lt hlt
    refine ⟨⟨answers, getElem?_concat_length, hanswer⟩, rfl, ?_, ?_⟩
    · intro i answers' id' answer' hi hj
      rcases hcases hi with ⟨hi, -⟩ | ⟨rfl, -⟩
      · exact (hall i _ _ _ hi hj).le
      · cases hanswer.symm.trans hj
        exact le_rfl
    · intro i answers' id' answer' hi hj hbound
      rcases hcases hi with ⟨hi, -⟩ | ⟨-, rfl⟩
      · exact hall i _ _ _ hi hj
      · exact absurd hbound (Nat.lt_irrefl _)
  next hnot =>
    obtain ⟨answers₀, hwindow, hasked⟩ := hold.asked
    have hindex := (List.getElem?_eq_some_iff.1 hwindow).1
    refine ⟨⟨answers₀, by rwa [getElem?_append_left hindex], hasked⟩, hold.span, ?_, ?_⟩
    · intro i answers' id' answer' hi hj
      rcases hcases hi with ⟨hi, -⟩ | ⟨rfl, -⟩
      · exact hold.highest i _ _ _ hi hj
      · cases hanswer.symm.trans hj
        exact not_lt.1 hnot
    · intro i answers' id' answer' hi hj hbound
      rcases hcases hi with ⟨hi, -⟩ | ⟨-, rfl⟩
      · exact hold.first i _ _ _ hi hj hbound
      · exact absurd (hbound.trans hindex) (Nat.lt_irrefl _)

/-! ## The whole scan -/

section Scan

variable {scanner : Scanner F} {request : DecisionRequest}

/-- What the first `n` windows owe. -/
structure Scanned (scanner : Scanner F) (request : DecisionRequest) (encode : EncodeOptions)
    (tokens : List Int) (width stride n : Nat) (windows : List (Answers F))
    (selected : List (WindowAnswer F)) : Prop where
  length : windows.length = n
  asked : ∀ (i : Nat) answers, windows[i]? = some answers → ∃ state,
    scanner.windowState request tokens width stride i = .ok state ∧
    scanner.runner.run ⟨state, request.questions⟩ encode = .ok answers
  answered : 0 < n → selected.map WindowAnswer.id = request.questions.map Prod.fst
  best : ∀ (j : Nat) taken, selected[j]? = some taken →
    Best (window tokens.length width stride) windows j taken

omit [Formatting] in
theorem scanWindows_best {encode : EncodeOptions} {tokens : List Int} {width stride n : Nat}
    {windows : List (Answers F)} {selected : List (WindowAnswer F)}
    (h : scanner.scanWindows request encode tokens width stride n = .ok (windows, selected)) :
    Scanned scanner request encode tokens width stride n windows selected := by
  induction n generalizing windows selected with
  | zero =>
    cases h
    exact ⟨rfl, fun _ _ hi => (nomatch hi), fun hpos => absurd hpos (Nat.lt_irrefl 0),
      fun _ _ hj => (nomatch hj)⟩
  | succ i ih =>
    obtain ⟨⟨before, taken⟩, hbefore, h⟩ := bind_eq_ok.1 h
    obtain ⟨⟨⟩, -, h⟩ := bind_eq_ok.1 h
    obtain ⟨state, hstate, h⟩ := bind_eq_ok.1 h
    obtain ⟨answers, hanswers, h⟩ := bind_eq_ok.1 h
    cases h
    obtain ⟨rfl, hasked, hanswered, hbest⟩ := ih hbefore
    have hids := scanner.runner.answersAll _ _ _ hanswers
    refine ⟨length_append.trans rfl, fun j given hj => ?_, fun _ => ?_, fun j kept hj => ?_⟩
    · rcases Nat.lt_or_ge j before.length with hlt | hge
      · exact hasked j given (by rwa [getElem?_append_left hlt] at hj)
      rw [getElem?_append_right hge, getElem?_singleton] at hj
      split at hj
      · cases hj
        obtain rfl : j = before.length := by omega
        exact ⟨state, hstate, hanswers⟩
      · cases hj
    · split
      · rw [Decision.first, map_map]
        exact hids
      next hpos => exact (map_id_choose (hids.trans (hanswered (Nat.pos_of_ne_zero hpos)).symm)).trans hids
    · split at hj
      next hzero =>
        obtain rfl := length_eq_zero_iff.1 hzero
        exact best_first hj
      next hpos =>
        have hlength : answers.length = taken.length := by
          simpa using congrArg length
            (hids.trans (hanswered (Nat.pos_of_ne_zero hpos)).symm)
        exact best_choose hlength (hbest j) hj

/-- What a scan owes: its windows cover the state, each was asked about, and for each question there
is an answer that is the first of the best. -/
structure ScanKept (scanner : Scanner F) (request : DecisionRequest) (scan : LongStateOptions)
    (result : LongDecisionResult F) : Prop where
  tokens : ∃ text tokens encode, request.state.serialize = .ok text ∧
    scanner.tokenize (scanner.special.clean text) = .ok tokens ∧
    result.stateTokens = tokens.length ∧
    ∀ (i : Nat) answers, result.windows[i]? = some answers → ∃ state,
      scanner.windowState request tokens result.windowTokens result.strideTokens i = .ok state ∧
      scanner.runner.run ⟨state, request.questions⟩ encode = .ok answers
  asked : result.windows.length =
    (windows result.stateTokens result.windowTokens result.strideTokens).length
  few : result.windows.length ≤ scan.maxWindows
  covers : Covers result.stateTokens result.windowTokens
    (windows result.stateTokens result.windowTokens result.strideTokens)
  answered : result.answers.map WindowAnswer.id = request.questions.map Prod.fst
  best : ∀ (j : Nat) taken, result.answers[j]? = some taken →
    Best (window result.stateTokens result.windowTokens result.strideTokens) result.windows j taken

/-- **A scan misses nothing.**  Where there are questions, its windows are in order and without a
gap, they cover the state, and none is empty unless the state is. -/
theorem scan_covers (scanner : Scanner F) (request : DecisionRequest) (scan : LongStateOptions)
    (encode : Option EncodeOptions) (result : LongDecisionResult F)
    (hquestions : request.questions ≠ []) (h : scanner.scan request scan encode = .ok result) :
    ScanKept scanner request scan result := by
  obtain ⟨⟨⟩, -, h⟩ := bind_eq_ok.1 h
  rw [if_neg (by simpa using hquestions)] at h
  obtain ⟨encode, -, h⟩ := bind_eq_ok.1 h
  obtain ⟨heads, -, h⟩ := bind_eq_ok.1 h
  obtain ⟨hvalid, h⟩ := ite_error_eq_ok.1 h
  obtain ⟨text, htext, h⟩ := bind_eq_ok.1 h
  obtain ⟨tokens, htokens, h⟩ := bind_eq_ok.1 h
  obtain ⟨⟨⟩, -, h⟩ := bind_eq_ok.1 h
  obtain ⟨hfew, h⟩ := ite_error_eq_ok.1 h
  obtain ⟨⟨asked, selected⟩, hscanned, h⟩ := bind_eq_ok.1 h
  cases h
  obtain ⟨hlength, hasked, hanswered, hbest⟩ := scanWindows_best hscanned
  simp only [not_or, not_lt] at hvalid hfew
  exact ⟨⟨text, tokens, _, htext, htokens, rfl, hasked⟩, hlength.trans length_windows.symm,
    hlength.trans_le hfew, covers_windows (Nat.pos_of_ne_zero hvalid.2.1) hvalid.2.2.1,
    hanswered windowCount_pos, hbest⟩

end Scan

/-! ## A letter a token -/

/-- Every question is answered in the same way, and each letter is a token. -/
def letters : Scanner ℚ where
  special := ⟨1, 2, 0, 3, "[MASK]", by decide, nodup_ids⟩
  tokenize text := .ok (text.map fun c => (c.toNat : Int))
  decodeState ids := .ok (String.ofList (ids.map fun t => Char.ofNat t.toNat))
  envelope := ⟨256, 256, 8, 1⟩
  runner :=
    { run := fun request _ => .ok (request.questions.map fun (id, _) =>
        (id, ⟨.yesNo 1, [0, 1], 1, 1, 1, 1, 1, "noul:2", false⟩))
      answersAll := by
        rintro request - - ⟨⟩
        rw [List.map_map]
        rfl }
  check _ := .ok ()

/-- A question about a text. -/
def about (text : String) : DecisionRequest :=
  ⟨.text text, [("q", .yesNo "" "no" "yes" none none none)]⟩

omit [Formatting] in
theorem scan_covers_hello :
    ∃ result, @Scanner.scan _ _ quoting letters (about "hello") ⟨some 3, some 2, 256⟩ none =
        .ok result ∧
      @ScanKept _ _ quoting letters (about "hello") ⟨some 3, some 2, 256⟩ result := by
  have hok : (@Scanner.scan _ _ quoting letters (about "hello") ⟨some 3, some 2, 256⟩
      none).isOk = true := by decide +kernel
  cases h : @Scanner.scan _ _ quoting letters (about "hello") ⟨some 3, some 2, 256⟩ none with
  | error e =>
    rw [h] at hok
    cases hok
  | ok result =>
    exact ⟨result, rfl, @scan_covers _ _ quoting letters _ _ _ result (List.cons_ne_nil _ _) h⟩

omit [Formatting] in
/-- A state without tokens has one window, which is empty, and without questions there is none. -/
theorem scan_empty :
    (@Scanner.scan _ _ quoting letters (about "") ⟨none, none, 256⟩ none).toOption.map
        (fun result => (windows result.stateTokens result.windowTokens result.strideTokens,
          result.answers.map fun taken => (taken.tokenStart, taken.tokenEnd))) =
      some ([(0, 0)], [(0, 0)]) ∧
    (@Scanner.scan _ _ quoting letters ⟨.text "hello", []⟩ ⟨none, none, 256⟩ none).toOption.map
        (fun result => (result.windows.length, result.stateTokens)) = some (0, 0) := by
  constructor <;> decide +kernel

end Gen2.Decision
