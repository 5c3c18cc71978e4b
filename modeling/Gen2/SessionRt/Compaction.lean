import Gen2.SessionRt.Truncate

/-!
# Compaction

`session_rt/compaction.rs`: the older part of a conversation is replaced by one message that says
what was in it.  The last messages stay as they are, as many as asked for, and so does the system
message.

The digest is modelled as the source writes it, since what it says decides how many tokens it takes.
-/

namespace Gen2
namespace SessionRt

/-- `DEFAULT_KEEP_RECENT`. -/
def defaultKeepRecent : Nat := 6

/-- `CompactionStrategy`. -/
inductive CompactionStrategy
  | none
  | algorithmic
  deriving DecidableEq

/-- `CompactResult`. -/
structure CompactResult where
  messages : List Message
  compactedCount : Nat
  strategy : CompactionStrategy

/-! ## The digest -/

/-- `text_of`. -/
def textOf (msg : Message) : String :=
  match msg.body with
  | .content (.singleText s) => s
  | .content (.structuredAssistant content _) => content
  | .content (.multipleChunks chunks) => " ".intercalate (chunks.filterMap fun
    | .text text => some text
    | _ => none)
  | .tool _ => ""

/-- `truncate_text`: short is measured in bytes, the rest in characters. -/
def truncateText (text : String) (maxChars : Nat) : String :=
  if (asBytes text).length ≤ maxChars then text
  else String.ofList (text.toList.take maxChars) ++ "..."

/-- The user messages that an assistant message follows, with it. -/
def exchanges : List Message → List (Message × Message)
  | first :: second :: rest =>
    if first.role == "user" && second.role == "assistant" then
      (first, second) :: exchanges (second :: rest)
    else exchanges (second :: rest)
  | _ => []

/-- One line of the key exchanges. -/
def topicLine (pair : Message × Message) : String :=
  "- Q: " ++ truncateText (textOf pair.1) 120 ++ "\n  A: " ++ truncateText (textOf pair.2) 120

/-- The loop over the middle exchanges: so many more lines, from an index on. -/
def topics (middle : List (Message × Message)) (step : Nat) : Nat → Nat → List String
  | 0, _ => []
  | remaining + 1, i =>
    match middle[i]? with
    | none => []
    | some pair => topicLine pair :: topics middle step remaining (i + step)

/-- The part about the key exchanges, where there is one. -/
def keyExchanges (head : List Message) : List String :=
  let pairs := exchanges head
  if 2 < pairs.length then
    let middle := (pairs.drop 1).take (pairs.length - 2)
    let step := max (max middle.length 1 / max (min 5 middle.length) 1) 1
    let lines := topics middle step 5 0
    if lines.isEmpty then [] else ["Key exchanges:\n" ++ "\n".intercalate lines]
  else []

/-- `build_algorithmic_digest`. -/
def buildAlgorithmicDigest (head : List Message) (compactedCount : Nat) : String :=
  let intent := (head.find? (·.role == "user")).map fun m =>
    "Original question: " ++ truncateText (textOf m) 300
  let context := (head.reverse.find? (·.role == "assistant")).map fun m =>
    "Last context before this window: " ++ truncateText (textOf m) 400
  let parts := ["[" ++ toString compactedCount ++ " earlier messages compacted]"] ++
    intent.toList ++ keyExchanges head ++ context.toList
  "<compact-summary>\n" ++ "\n\n".intercalate parts ++ "\n</compact-summary>"

/-- The message that stands for what was compacted. -/
def summaryMsg (head : List Message) : Message :=
  ⟨"system", .content (.singleText (buildAlgorithmicDigest head head.length)), none, none⟩

/-! ## Compacting -/

/-- `compact_algorithmic`. -/
def compactAlgorithmic (messages : List Message) (keepRecent : Nat) : CompactResult :=
  let total := messages.length
  let minToCompact := keepRecent + 3
  if total ≤ minToCompact then ⟨messages, 0, .none⟩
  else
    let bodyStart := if firstIsSystem messages then 1 else 0
    let splitAt := total - keepRecent
    if splitAt ≤ bodyStart then ⟨messages, 0, .none⟩
    else
      let head := (messages.take splitAt).drop bodyStart
      let tail := messages.drop splitAt
      if head.isEmpty then ⟨messages, 0, .none⟩
      else ⟨messages.take bodyStart ++ summaryMsg head :: tail, head.length, .algorithmic⟩

variable {messages : List Message} {keepRecent : Nat}

theorem compactAlgorithmic_short (h : messages.length ≤ keepRecent + 3) :
    compactAlgorithmic messages keepRecent = ⟨messages, 0, .none⟩ := by
  rw [compactAlgorithmic]
  exact if_pos h

/-- A conversation taken apart as compaction does: the system message, what is replaced, and what
stays. -/
structure Parts (messages : List Message) (keepRecent : Nat) where
  lead : List Message
  head : List Message
  tail : List Message
  eq : messages = lead ++ (head ++ tail)
  lead_length : lead.length = ColdStart.removeIdx messages
  tail_length : tail.length = keepRecent
  head_ne : head ≠ []

theorem Parts.sublist (p : Parts messages keepRecent) : (p.lead ++ p.tail).Sublist messages := by
  have h : (p.lead ++ p.tail).Sublist (p.lead ++ (p.head ++ p.tail)) :=
    (List.Sublist.refl p.lead).append (List.sublist_append_right p.head p.tail)
  rwa [← p.eq] at h

theorem removeIdx_le_one (messages : List Message) : ColdStart.removeIdx messages ≤ 1 := by
  rw [ColdStart.removeIdx]
  split <;> omega

/-- The parts of a conversation that is long enough to compact. -/
def partsOf (messages : List Message) (keepRecent : Nat) (h : keepRecent + 3 < messages.length) :
    Parts messages keepRecent :=
  let bodyStart := ColdStart.removeIdx messages
  have hstart : bodyStart ≤ 1 := removeIdx_le_one messages
  { lead := messages.take bodyStart
    head := (messages.take (messages.length - keepRecent)).drop bodyStart
    tail := messages.drop (messages.length - keepRecent)
    eq := by
      have hsplit := List.take_append_drop bodyStart (messages.take (messages.length - keepRecent))
      rw [List.take_take, Nat.min_eq_left (by omega)] at hsplit
      rw [← List.append_assoc, hsplit, List.take_append_drop]
    lead_length := by
      rw [List.length_take]
      omega
    tail_length := by
      rw [List.length_drop]
      omega
    head_ne := by
      rw [← List.length_pos_iff_ne_nil, List.length_drop, List.length_take]
      omega }

/-- **A long conversation is compacted to its parts**, with a summary in place of the head. -/
theorem compactAlgorithmic_long (h : keepRecent + 3 < messages.length) :
    compactAlgorithmic messages keepRecent =
      ⟨(partsOf messages keepRecent h).lead ++
          summaryMsg (partsOf messages keepRecent h).head :: (partsOf messages keepRecent h).tail,
        (partsOf messages keepRecent h).head.length, .algorithmic⟩ := by
  have hne := (partsOf messages keepRecent h).head_ne
  have hstart := removeIdx_le_one messages
  have hsplit : ¬ messages.length - keepRecent ≤ ColdStart.removeIdx messages := by omega
  have hempty : ¬ (partsOf messages keepRecent h).head.isEmpty = true := by
    simpa [List.isEmpty_iff] using hne
  exact (if_neg (Nat.not_le.2 h)).trans ((if_neg hsplit).trans (if_neg hempty))

end SessionRt
end Gen2
