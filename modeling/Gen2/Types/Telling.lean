import Gen2.Types.MessageWire

/-!
# Messages that their text tells

`types/message.rs`: two messages may be written alike.

* `Tells f x` says that `f` makes of nothing else what it makes of `x`.
* A call's arguments tell if they are a string, and one that is no other value's text; a sample
  tells if `serde_json` writes no other like it.
* `tells_message_iff`: a message without a microphone is told by what is written for it if and only
  if its arguments and its samples tell.
-/

namespace Gen2

open Backend List MessageChunk

/-! ## What tells -/

section
variable {α β : Type}

/-- Nothing else is made into the same. -/
def Tells (f : α → β) (x : α) : Prop := ∀ y, f y = f x → y = x

theorem tells_of_injective {f : α → β} (h : Function.Injective f) (x : α) : Tells f x :=
  fun _ heq => h heq

/-- A list tells if and only if what is in it does. -/
theorem tells_map_iff {f : α → β} {xs : List α} :
    Tells (map f) xs ↔ ∀ x ∈ xs, Tells f x := by
  constructor
  · intro h x hx y heq
    obtain ⟨front, back, rfl⟩ := append_of_mem hx
    have hsame : front ++ y :: back = front ++ x :: back := h _ (by simp [heq])
    exact (cons.inj (append_cancel_left hsame)).1
  · intro h
    induction xs with
    | nil => exact fun ys heq => map_eq_nil_iff.1 heq
    | cons x xs ih =>
      intro ys heq
      cases ys with
      | nil => cases heq
      | cons y ys =>
        obtain ⟨hhead, htail⟩ := cons.inj heq
        rw [h x mem_cons_self y hhead,
          ih (fun x hx => h x (mem_cons_of_mem _ hx)) ys htail]

/-- What a list is written as says what each of its items is. -/
theorem map_of_mapM {f : α → Option β} {xs : List α} {ws : List β} (h : xs.mapM f = some ws) :
    xs.map f = ws.map some := by
  induction xs generalizing ws with
  | nil =>
    obtain rfl := Option.some.inj h
    rfl
  | cons x xs ih =>
    rw [mapM_cons] at h
    obtain ⟨w, hw, h⟩ := Option.bind_eq_some_iff.1 h
    obtain ⟨ws', hws, h⟩ := Option.bind_eq_some_iff.1 h
    obtain rfl := Option.some.inj h
    rw [map_cons, map_cons, hw, ih hws]

theorem mapM_eq_map (f : α → Option β) (xs : List α) : xs.mapM f = (xs.map f).mapM id := by
  rw [mapM_map]
  rfl

/-- The same where each of it is written, or not. -/
theorem tells_mapM_iff {f : α → Option β} {xs : List α} {ws : List β} (h : xs.mapM f = some ws) :
    Tells (mapM f) xs ↔ ∀ x ∈ xs, Tells f x := by
  rw [← tells_map_iff]
  constructor
  · intro htell ys heq
    refine htell ys ?_
    rw [mapM_eq_map, mapM_eq_map f xs, heq]
  · intro htell ys heq
    refine htell ys ?_
    rw [map_of_mapM h, map_of_mapM (heq.trans h)]

end

section
variable [JsonText] [SampleJson]

/-! ## Calls -/

/-- Arguments that tell: a string, and one that is no other value's text. -/
def ArgumentsTell (v : Json) : Prop :=
  ∃ t, v = .string t ∧ ∀ w, (∀ s, w ≠ .string s) → JsonText.toText w ≠ t.toList

omit [SampleJson] in
theorem serializeAsString_of_ne {v : Json} (h : ∀ s, v ≠ .string s) :
    serializeAsString v = .string (String.ofList (JsonText.toText v)) := by
  cases v with
  | string s => exact absurd rfl (h s)
  | _ => rfl

omit [SampleJson] in
/-- **These are the arguments that nothing else is written like.** -/
theorem argumentsTell_iff {v : Json} : Tells serializeAsString v ↔ ArgumentsTell v := by
  constructor
  · intro h
    have hstring : ∃ t, v = .string t := by
      by_contra hne
      have hne : ∀ s, v ≠ .string s := fun s hs => hne ⟨s, hs⟩
      exact hne _ (h (.string _) (serializeAsString_of_ne hne).symm).symm
    obtain ⟨t, rfl⟩ := hstring
    refine ⟨t, rfl, fun w hw htext => hw t (h w ?_)⟩
    rw [serializeAsString_of_ne hw, htext, String.ofList_toList]
    rfl
  · rintro ⟨t, rfl, htell⟩ w heq
    by_cases hw : ∀ s, w ≠ .string s
    · rw [serializeAsString_of_ne hw] at heq
      refine absurd ?_ (htell w hw)
      rw [← Json.string.inj heq, String.toList_ofList]
    · obtain ⟨s, hs⟩ := not_forall.1 hw
      obtain rfl := not_not.1 hs
      exact heq

omit [JsonText] [SampleJson] in
theorem optionalString_injective : Function.Injective optionalString := by
  intro a b h
  cases a <;> cases b <;> simp_all [optionalString]

omit [SampleJson] in
theorem tells_call_iff {call : ToolCall} :
    Tells ToolCall.toWire call ↔ ArgumentsTell call.function.arguments := by
  rw [← argumentsTell_iff]
  constructor
  · intro h w heq
    have hsame := h { call with function := { call.function with arguments := w } }
      (by simp [ToolCall.toWire, FunctionDefinition.toWire, heq])
    exact congrArg (·.function.arguments) hsame
  · intro h call' heq
    obtain ⟨id, type, ⟨description, name, arguments⟩⟩ := call
    obtain ⟨id', type', ⟨description', name', arguments'⟩⟩ := call'
    simp only [ToolCall.toWire, FunctionDefinition.toWire, Json.object.injEq, cons.injEq,
      Prod.mk.injEq, Json.string.injEq, true_and, and_true] at heq
    obtain ⟨rfl, rfl, hdescription, rfl, harguments⟩ := heq
    rw [optionalString_injective hdescription, h arguments' harguments]

/-! ## Samples and chunks -/

/-- A sample that tells: no other is written like it. -/
def SampleTells (x : F32) : Prop := Tells SampleJson.written x

omit [JsonText] [SampleJson] in
theorem image_injective : Function.Injective Image.toWire := by
  rintro ⟨a⟩ ⟨b⟩ h
  simpa [Image.toWire] using h

omit [JsonText] in
theorem tells_video_iff {video : Video} :
    Tells Video.toWire video ↔ ∀ x ∈ video.soundtrack, SampleTells x := by
  rw [show (∀ x ∈ video.soundtrack, SampleTells x) ↔ _ from tells_map_iff.symm]
  constructor
  · intro h samples heq
    have hsame := h { video with soundtrack := samples } (by simp [Video.toWire, heq])
    exact congrArg Video.soundtrack hsame
  intro h video' heq
  obtain ⟨frames, soundtrack⟩ := video
  obtain ⟨frames', soundtrack'⟩ := video'
  simp only [Video.toWire, Json.object.injEq, cons.injEq, Prod.mk.injEq, Json.array.injEq,
    true_and, and_true] at heq
  rw [tells_map_iff.2 (fun image _ => tells_of_injective image_injective image) frames' heq.1,
    h soundtrack' heq.2]

omit [JsonText] in
theorem tells_chunk_iff {chunk : MessageChunk} :
    Tells toWire chunk ↔ ∀ x ∈ chunk.samples, SampleTells x := by
  cases chunk with
  | text t =>
    refine iff_of_true (fun chunk' heq => ?_) nofun
    cases chunk' <;> simp_all [toWire]
  | imageUrl url =>
    refine iff_of_true (fun chunk' heq => ?_) nofun
    cases chunk' <;> simp_all [toWire]
  | audioPcm samples =>
    show _ ↔ ∀ x ∈ samples, SampleTells x
    rw [show (∀ x ∈ samples, SampleTells x) ↔ _ from tells_map_iff.symm]
    constructor
    · intro h samples' heq
      have hsame := h (.audioPcm samples') (by simp only [toWire, heq])
      exact audioPcm.inj hsame
    intro h chunk' heq
    cases chunk' with
    | audioPcm samples' =>
      simp only [toWire, Option.some.injEq, Json.object.injEq, cons.injEq,
        Prod.mk.injEq, Json.array.injEq, true_and, and_true] at heq
      rw [h samples' heq]
    | _ => simp [toWire] at heq
  | video v =>
    show _ ↔ ∀ x ∈ v.soundtrack, SampleTells x
    rw [← tells_video_iff]
    constructor
    · intro h v' heq
      have hsame := h (.video v') (by simp only [toWire, heq])
      exact video.inj hsame
    intro h chunk' heq
    cases chunk' with
    | video v' =>
      simp only [toWire, Option.some.injEq, Json.object.injEq, cons.injEq,
        Prod.mk.injEq, true_and, and_true] at heq
      rw [h v' heq]
    | _ => simp [toWire] at heq
  | microphone =>
    refine iff_of_true (fun chunk' heq => ?_) nofun
    cases chunk' <;> simp_all [toWire]

/-! ## Messages -/

omit [JsonText] in
theorem toWire_ne_none {c : MessageContent} (h : .microphone ∉ c.chunks) :
    ∃ w, c.toWire = some w := by
  cases c with
  | multipleChunks chunks =>
    have hall : ∀ xs : List MessageChunk, .microphone ∉ xs →
        ∃ ws, xs.mapM toWire = some ws := by
      intro xs hxs
      induction xs with
      | nil => exact ⟨[], rfl⟩
      | cons x xs ih =>
        obtain ⟨ws, hws⟩ := ih fun hmem => hxs (mem_cons_of_mem _ hmem)
        obtain ⟨w, hw⟩ : ∃ w, x.toWire = some w := by
          cases x with
          | microphone => exact absurd mem_cons_self hxs
          | _ => exact ⟨_, rfl⟩
        exact ⟨w :: ws, by rw [mapM_cons, hw, hws]; rfl⟩
    obtain ⟨ws, hws⟩ := hall chunks h
    exact ⟨.array ws, by rw [MessageContent.toWire, hws]; rfl⟩
  | _ => exact ⟨_, rfl⟩

omit [JsonText] in
theorem tells_content_iff {c : MessageContent} (h : .microphone ∉ c.chunks) :
    Tells MessageContent.toWire c ↔ ∀ chunk ∈ c.chunks, ∀ x ∈ chunk.samples, SampleTells x := by
  cases c with
  | singleText t =>
    refine iff_of_true (fun c' heq => ?_) (by rintro _ ⟨⟩)
    cases c' <;> simp_all [MessageContent.toWire]
  | structuredAssistant content reasoning =>
    refine iff_of_true (fun c' heq => ?_) (by rintro _ ⟨⟩)
    cases c' with
    | structuredAssistant content' reasoning' =>
      simp only [MessageContent.toWire, Option.some.injEq, Json.object.injEq, cons.injEq,
        Prod.mk.injEq, Json.string.injEq, true_and, and_true] at heq
      rw [heq.1, optionalString_injective heq.2]
    | _ => simp [MessageContent.toWire] at heq
  | multipleChunks chunks =>
    obtain ⟨w, hw⟩ := toWire_ne_none h
    obtain ⟨ws, hws, rfl⟩ := Option.map_eq_some_iff.1 hw
    show _ ↔ ∀ chunk ∈ chunks, ∀ x ∈ chunk.samples, SampleTells x
    simp only [← tells_chunk_iff]
    rw [← tells_mapM_iff hws]
    constructor
    · intro htell chunks' heq
      have hsame := htell (.multipleChunks chunks') (by simp only [MessageContent.toWire, heq])
      exact MessageContent.multipleChunks.inj hsame
    intro htell c' heq
    rw [hw] at heq
    cases c' with
    | multipleChunks chunks' =>
      obtain ⟨ws', hws', hsame⟩ := Option.map_eq_some_iff.1 heq
      rw [htell chunks' (by rw [hws', hws, Json.array.inj hsame])]
    | _ => simp [MessageContent.toWire] at heq

/-- A message that is told by what is written for it. -/
structure Message.Telling (m : Message) : Prop where
  microphone : .microphone ∉ m.chunks
  arguments : ∀ call ∈ m.toolCalls, ArgumentsTell call.function.arguments
  samples : ∀ chunk ∈ m.chunks, ∀ x ∈ chunk.samples, SampleTells x

/-- The body of a message is told by its field. -/
theorem tells_body_iff {m : Message} (h : .microphone ∉ m.chunks) :
    Tells MessageBody.toWire m.body ↔ m.Telling := by
  obtain ⟨role, body, name, toolCallId⟩ := m
  cases body with
  | content c =>
    have hiff : Tells MessageBody.toWire (.content c) ↔ Tells MessageContent.toWire c := by
      obtain ⟨w, hw⟩ := toWire_ne_none (c := c) h
      constructor
      · intro htell c' heq
        have hsame := htell (.content c') (by simp only [MessageBody.toWire, heq])
        exact MessageBody.content.inj hsame
      intro htell body heq
      rw [MessageBody.toWire, hw] at heq
      cases body with
      | content c' =>
        obtain ⟨w', hw', hsame⟩ := Option.map_eq_some_iff.1 heq
        rw [htell c' (by rw [hw', hw, (Prod.mk.inj hsame).2])]
      | tool calls => simp [MessageBody.toWire] at heq
    rw [hiff, tells_content_iff h]
    exact ⟨fun hsamples => ⟨h, nofun, hsamples⟩, fun htelling => htelling.samples⟩
  | tool calls =>
    have hiff : Tells MessageBody.toWire (.tool calls) ↔ Tells (map ToolCall.toWire) calls := by
      constructor
      · intro htell calls' heq
        have hsame := htell (.tool calls') (by simp only [MessageBody.toWire, heq])
        exact MessageBody.tool.inj hsame
      intro htell body heq
      cases body with
      | content c' =>
        obtain ⟨w', -, hsame⟩ := Option.map_eq_some_iff.1 heq
        simp at hsame
      | tool calls' =>
        simp only [MessageBody.toWire, Option.some.injEq, Prod.mk.injEq, Json.array.injEq,
          true_and] at heq
        rw [htell calls' heq]
    rw [hiff, tells_map_iff]
    simp only [tells_call_iff]
    exact ⟨fun hcalls => ⟨h, hcalls, nofun⟩, fun htelling => htelling.arguments⟩

/-- A body without a microphone is written. -/
theorem exists_field {m : Message} (h : .microphone ∉ m.chunks) :
    ∃ field, m.body.toWire = some field := by
  obtain ⟨role, body, name, toolCallId⟩ := m
  cases body with
  | content c =>
    obtain ⟨w, hw⟩ := toWire_ne_none (c := c) h
    exact ⟨_, by rw [MessageBody.toWire, hw]; rfl⟩
  | tool calls => exact ⟨_, rfl⟩

/-- One with a microphone is not. -/
theorem toWire_of_microphone {m : Message} (h : .microphone ∈ m.chunks) :
    m.body.toWire = none := by
  obtain ⟨role, body, name, toolCallId⟩ := m
  cases body with
  | content c =>
    cases c with
    | multipleChunks chunks =>
      have h : .microphone ∈ chunks := h
      have hnone : chunks.mapM toWire = none := by
        cases hws : chunks.mapM toWire with
        | none => rfl
        | some ws =>
          have hmem := mem_map_of_mem (f := toWire) h
          rw [map_of_mapM hws, mem_map] at hmem
          obtain ⟨w, -, hw⟩ := hmem
          cases hw
      rw [MessageBody.toWire, MessageContent.toWire, hnone]
      rfl
    | _ => cases h
  | tool calls => cases h

/-- **A message is told by what is written for it** if and only if its arguments and its samples
tell. -/
theorem tells_message_iff {m : Message} (h : .microphone ∉ m.chunks) :
    Tells Message.toWire m ↔ m.Telling := by
  rw [← tells_body_iff h]
  obtain ⟨field, hfield⟩ := exists_field h
  obtain ⟨role, body, name, toolCallId⟩ := m
  dsimp only at hfield
  constructor
  · intro htell body' heq
    have hsame := htell ⟨role, body', name, toolCallId⟩ (by simp only [Message.toWire, heq])
    exact congrArg Message.body hsame
  rintro htell ⟨role', body', name', toolCallId'⟩ heq
  rw [Message.toWire, Message.toWire, hfield] at heq
  obtain ⟨field', hfield', hsame⟩ := Option.map_eq_some_iff.1 heq
  simp only [Json.object.injEq, cons_append, nil_append, cons.injEq,
    Prod.mk.injEq, Json.string.injEq, true_and] at hsame
  obtain ⟨rfl, hfields, hname, hid⟩ := hsame
  have hbody : body' = body := htell body' (by rw [hfield', hfield, hfields])
  have htool : toolCallId' = toolCallId := by
    cases toolCallId with
    | none => cases toolCallId' with
      | none => rfl
      | some id' => cases hid
    | some id => cases toolCallId' with
      | none => cases hid
      | some id' => simpa using hid
  rw [hbody, optionalString_injective hname, htool]

end

end Gen2
