import Gen2.Decision.Long

/-!
# Deciding many requests at once

`decision/onnx.rs`: `run_batch` encodes all its requests, has the graph answer their rows in batches,
wherever one request ends and the next begins, and puts each answer into the result of its request.

`runRequests_eq_each` is the result: where the graph answers a row whatever is beside it, a batch of
requests comes to what each of them comes to alone.
-/

namespace Gen2.Decision

open Lib List

variable {F : Type}

/-- `DecisionResult`, by its answers and its inputs. -/
structure DecisionResult (F : Type) where
  answers : Answers F
  inputs : List EncodedQuestion

/-- `results[state].answers.push(..)`. -/
def push (results : List (DecisionResult F)) (answer : Nat × String × Answer F) :
    List (DecisionResult F) :=
  results.modify answer.1 fun result => { result with answers := result.answers ++ [answer.2] }

theorem modify_length {α : Type} (pre : List α) (x : α) (post : List α) (f : α → α) :
    (pre ++ x :: post).modify pre.length f = pre ++ f x :: post :=
  modifyTailIdx_add (modifyHead f) 0 pre (x :: post)

/-- The answers of one request are pushed into one result. -/
theorem foldl_push (pre post : List (DecisionResult F)) (result : DecisionResult F)
    (answers : Answers F) :
    (answers.map (pre.length, ·)).foldl push (pre ++ result :: post) =
      pre ++ ⟨result.answers ++ answers, result.inputs⟩ :: post := by
  induction answers generalizing result with
  | nil => rw [append_nil]; rfl
  | cons answer answers ih =>
    rw [map_cons, foldl_cons, push, modify_length, ih, append_assoc]
    rfl

variable {L : Type} [LinearOrder F] [Formatting]

/-- The rows of a request, with their questions. -/
def OnnxBackend.encodeRequest (backend : OnnxBackend L F) (encode : EncodeOptions)
    (request : DecisionRequest) : Except DecisionError (List (EncodedQuestion × Question)) := do
  let rows ← Decision.encode request encode backend.special backend.tokenize
  if rows.any (backend.envelope.maxOptions < ·.markerPos.length) then
    .error (.resourceLimit "option count exceeds the exported envelope")
  else return rows.zip (request.questions.map Prod.snd)

/-- The rows of all requests, with the places of their answers. -/
def placed (encoded : List (List (EncodedQuestion × Question))) (state : Nat) :
    List (EncodedQuestion × Nat × Question) :=
  (encoded.zipIdx state).flatMap fun (rows, state) => rows.map fun (row, q) => (row, state, q)

/-- What a batch of rows comes to. -/
def OnnxBackend.answerRows (backend : OnnxBackend L F) (language : Option String)
    (chunk : List (EncodedQuestion × Nat × Question)) :
    Except DecisionError (List (Nat × String × Answer F)) := do
  let out ← backend.session.forward (chunk.map Prod.fst)
  (chunk.zip out).mapM fun ((row, state, question), logits, action) => do
    let answer ← backend.calibration.decode backend.floats backend.lowercase question logits action
      language
    return (state, row.id, answer)

/-- `run_batch`. -/
def OnnxBackend.runRequests (backend : OnnxBackend L F) (language : Option String)
    (encode : EncodeOptions) (requests : List DecisionRequest) :
    Except DecisionError (List (DecisionResult F)) := do
  if backend.envelope.maxLen < encode.maxLen ∨ backend.envelope.headMaxLen < encode.headMaxLen then
    .error (.resourceLimit "requested sequence budget exceeds the exported envelope")
  else
    let encoded ← requests.mapM (backend.encodeRequest encode)
    let answers ← ((placed encoded 0).toChunks backend.envelope.maxBatch).mapM
      (backend.answerRows language)
    return answers.flatten.foldl push (encoded.map fun rows => ⟨[], rows.map Prod.fst⟩)

/-- The backend, with a graph that answers a row whatever is beside it in the batch. -/
def OnnxBackend.byRow (backend : OnnxBackend L F)
    (one : EncodedQuestion → Except DecisionError (List L × (L × L))) : OnnxBackend L F :=
  { backend with session := ⟨(·.mapM one), fun _ _ h => (mapM_eq_ok.1 h).length_eq.symm⟩ }

/-! ## One row at a time -/

variable (one : EncodedQuestion → Except DecisionError (List L × (L × L)))
  (backend : OnnxBackend L F) (language : Option String)

/-- The answer to a row. -/
def OnnxBackend.answerRow (row : EncodedQuestion × Question) : Option (String × Answer F) :=
  (one row.1).toOption.bind fun (logits, action) =>
    ((backend.calibration.decode backend.floats backend.lowercase row.2 logits action
      language).toOption.map (row.1.id, ·))

/-- The result of a request. -/
def OnnxBackend.resultOf (rows : List (EncodedQuestion × Question)) : Option (DecisionResult F) :=
  (rows.mapM (backend.answerRow one language)).map (⟨·, rows.map Prod.fst⟩)

variable {one backend language}

theorem toOption_answerRows (chunk : List (EncodedQuestion × Nat × Question)) :
    ((backend.byRow one).answerRows language chunk).toOption =
      chunk.mapM fun p => (backend.answerRow one language (p.1, p.2.2)).map (p.2.1, ·) := by
  rw [OnnxBackend.answerRows, OnnxBackend.byRow, toOption_bind, toOption_mapM, mapM_map]
  simp only [toOption_mapM]
  rw [mapM_bind_zip]
  congr 1
  funext p
  rw [OnnxBackend.answerRow, Option.map_bind]
  congr 1
  funext out
  rw [toOption_bind, Function.comp_apply, Option.map_map]
  cases backend.calibration.decode backend.floats backend.lowercase p.2.2 out.1 out.2 language <;>
    rfl

/-- The answers to the rows of some requests, once they are in their results. -/
theorem push_placed (encoded : List (List (EncodedQuestion × Question)))
    (pre : List (DecisionResult F)) :
    ((placed encoded pre.length).mapM fun p =>
        (backend.answerRow one language (p.1, p.2.2)).map (p.2.1, ·)).map
          (·.foldl push (pre ++ encoded.map fun rows => ⟨[], rows.map Prod.fst⟩)) =
      (encoded.mapM (backend.resultOf one language)).map (pre ++ ·) := by
  induction encoded generalizing pre with
  | nil => rfl
  | cons rows encoded ih =>
    have hrows : (rows.map fun (row, q) => (row, pre.length, q)).mapM (fun p =>
        (backend.answerRow one language (p.1, p.2.2)).map (p.2.1, ·)) =
        (rows.mapM (backend.answerRow one language)).map (·.map (pre.length, ·)) := by
      rw [← mapM_option_map, mapM_map]
      rfl
    rw [placed, zipIdx_cons, flatMap_cons, mapM_append, hrows, mapM_cons, OnnxBackend.resultOf]
    cases rows.mapM (backend.answerRow one language) with
    | none => rfl
    | some answers =>
      have ih := ih (pre ++ [⟨answers, rows.map Prod.fst⟩])
      rw [length_append, length_singleton, placed] at ih
      generalize List.mapM (m := Option) _ (flatMap _ _) = more at ih ⊢
      generalize List.mapM (m := Option) _ encoded = results at ih ⊢
      cases more <;> cases results <;> simp_all [foldl_push]

theorem toOption_runRequests (encode : EncodeOptions) (requests : List DecisionRequest) :
    ((backend.byRow one).runRequests language encode requests).toOption =
      if backend.envelope.maxLen < encode.maxLen ∨ backend.envelope.headMaxLen < encode.headMaxLen
      then none
      else requests.mapM fun request => (backend.encodeRequest encode request).toOption.bind
        (backend.resultOf one language) := by
  refine (apply_ite Except.toOption ..).trans (if_congr Iff.rfl rfl ?_)
  rw [toOption_bind, toOption_mapM, ← mapM_bind]
  congr 1
  funext encoded
  rw [toOption_bind, toOption_mapM]
  refine (congrArg (Option.bind · _) (congrArg (mapM · _) (funext toOption_answerRows))).trans ?_
  have hpush := @push_placed F L _ _ one backend language encoded []
  rw [← flatten_toChunks backend.envelope.maxBatch (placed ..), ← mapM_flatten, Option.map_map]
    at hpush
  exact (Option.map_eq_bind ..).symm.trans (hpush.trans (congrFun Option.map_id _))

/-- **A batch comes to what its requests come to.**  Whatever the size of the batches, and however
the rows fall into them: many requests are decided when each of them alone is, with its result. -/
theorem runRequests_eq_each (one : EncodedQuestion → Except DecisionError (List L × (L × L)))
    (backend : OnnxBackend L F) (language : Option String) (encode : EncodeOptions)
    (request : DecisionRequest) (requests : List DecisionRequest) :
    ((backend.byRow one).runRequests language encode (request :: requests)).toOption =
      ((request :: requests).mapM fun r =>
        ((backend.byRow one).runRequests language encode [r]).toOption).map flatten := by
  simp only [toOption_runRequests]
  split_ifs
  · rfl
  · have heach := mapM_flatten (fun r => (backend.encodeRequest encode r).toOption.bind
      (backend.resultOf one language)) ((request :: requests).map ([·]))
    rw [mapM_map, ← flatMap_def, flatMap_singleton'] at heach
    exact heach.symm

end Gen2.Decision
