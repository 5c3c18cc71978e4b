import Gen2.Journal.Entry
import Gen2.Lib.Lines
import Gen2.Lib.Run
import Gen2.Types.Text

/-!
# The journal on disk

`journal/store.rs`: an append-only file of records, one JSON object a line, and what is left of it
after writes that fail and processes that die.

* `readAll`, `openJournal` and `append` are the code; `Write` is what the file system makes of an
  append, and `step` puts them together into runs over one file.
* `World.acknowledged` is not in the source: it remembers the records whose append returned `Ok`.
* `RecordJson` is what the code uses of `serde_json`, and `LawfulRecordJson` what the store relies
  on: a record is one line of printable characters, and a part of one is not a record.
* `Sound` is the invariant: whole lines that read back as they were written, with increasing ids,
  and after them at most the beginning of one more.
* The reader forgives an unfinished last line, but the writer takes no notice of it, nor of a record
  that a failed append has left.  `StepSafe` excludes what comes of that, and `journal_durable` is
  the outcome: in every run of such steps, every later replay returns what was acknowledged.
-/

namespace Gen2
namespace Journal

open Lib List

/-! ## What is read and written -/

/-- `JournalError`. -/
inductive JournalError
  | io (message : String)
  | corrupt (line : Nat) (reason : String)

/-- The two functions of `serde_json` the store calls. -/
class RecordJson where
  /-- `serde_json::to_string` on a record; `none` where serialization fails. -/
  toString : Record → Option String
  /-- `serde_json::from_str::<Record>`. -/
  fromStr : String → Except String Record

/-- What the store relies on.  `serde_json` writes an object without line breaks, and escapes
control characters in strings; and an object that is not closed does not parse. -/
class LawfulRecordJson [RecordJson] : Prop where
  printable : ∀ {record text}, RecordJson.toString record = some text →
    ∀ b ∈ asBytes text, 0x20 ≤ b
  notBlank : ∀ {record text}, RecordJson.toString record = some text → isBlank text = false
  unclosed : ∀ {record text fragment}, RecordJson.toString record = some text →
    asBytes fragment <+: asBytes text → fragment ≠ text →
      ∃ reason, RecordJson.fromStr fragment = .error reason

/-! ## Reading -/

/-- `\n`. -/
def newline : UInt8 := 0x0a

/-- `\r`. -/
def carriageReturn : UInt8 := 0x0d

/-- What `BufRead::lines` takes off a line: `\n`, and a `\r` before it. -/
def stripEol (line : List UInt8) : List UInt8 :=
  if line.getLast? = some newline then
    if line.dropLast.getLast? = some carriageReturn then line.dropLast.dropLast else line.dropLast
  else line

theorem stripEol_of_printable {line : List UInt8} (h : ∀ b ∈ line, 0x20 ≤ b) :
    stripEol line = line ∧ stripEol (line ++ [newline]) = line := by
  have hlast : ∀ c : UInt8, c < 0x20 → line.getLast? ≠ some c := fun c hc hsome =>
    absurd (h c (mem_of_getLast? hsome)) (UInt8.not_le.2 hc)
  constructor
  · rw [stripEol, if_neg (hlast newline (by decide))]
  · rw [stripEol, getLast?_concat, if_pos rfl, dropLast_concat,
      if_neg (hlast carriageReturn (by decide))]

section
variable [RecordJson]

/-- The loop of `read_all`, from the line at `index` on.  A line that is no record ends the history
if it is the last of all (`is_last_line`), and is an error anywhere else. -/
def readLines (total : Nat) : Nat → List (List UInt8) → Except JournalError (List Record)
  | _, [] => .ok []
  | index, line :: rest =>
    match fromUtf8 (stripEol line) with
    | none => .error (.io "stream did not contain valid UTF-8")
    | some line =>
      if isBlank line then readLines total (index + 1) rest
      else match RecordJson.fromStr line with
        | .ok record => (readLines total (index + 1) rest).map (record :: ·)
        | .error reason =>
          if index + 1 = total then .ok [] else .error (.corrupt (index + 1) reason)

/-- `read_all`.  No file is an empty history. -/
def readAll : Option (List UInt8) → Except JournalError (List Record)
  | none => .ok []
  | some bytes =>
    let lines := splitInclusive newline bytes
    readLines lines.length 0 lines

/-- `JsonlJournal::open`: the counter goes on after the last record. -/
def openJournal (file : Option (List UInt8)) : Except JournalError Nat := do
  let existing ← readAll file
  return match existing.getLast? with
    | some r => r.id + 1
    | none => 0

/-! ## Writing -/

/-- What the file system makes of an append. -/
inductive Write
  | done
  /-- The file cannot be opened. -/
  | notOpened
  /-- `write_all` fails after so many bytes. -/
  | torn (written : Nat)
  /-- Everything is written, but `sync_data` fails. -/
  | unsynced
  /-- The process dies after so many bytes. -/
  | crashed (written : Nat)

/-- How much of a line an append leaves in the file, where that is not all of it. -/
def Write.cut : Write → Option Nat
  | .torn n | .crashed n => some n
  | _ => none

/-- `JsonlJournal::append` by a journal with this counter: its result, the counter after it, and the
file.  There is no result, and no journal any more, where the process dies. -/
def append (next : Nat) («at» : Int) (entry : JournalEntry) (write : Write)
    (file : Option (List UInt8)) :
    Option (Except JournalError Nat × Nat) × Option (List UInt8) :=
  match RecordJson.toString ⟨next, «at», entry⟩ with
  | none => (some (.error (.io "serialization failed"), next), file)
  | some text =>
    let line := asBytes text ++ [newline]
    let written := file.getD []
    match write with
    | .notOpened => (some (.error (.io "open failed"), next), file)
    | .torn n => (some (.error (.io "write failed"), next), some (written ++ line.take n))
    | .unsynced => (some (.error (.io "sync failed"), next), some (written ++ line))
    | .crashed n => (none, some (written ++ line.take n))
    | .done => (some (.ok next, next + 1), some (written ++ line))

/-! ## Runs -/

/-- A file, the journal that is open on it, and the records whose append returned `Ok`. -/
structure World where
  file : Option (List UInt8)
  next : Option Nat
  acknowledged : List Record

/-- No file yet, and no journal. -/
def World.new : World := ⟨none, none, []⟩

/-- What can happen. -/
inductive Step
  /-- The journal is opened, or opened again. -/
  | reopen
  | append («at» : Int) (entry : JournalEntry) (write : Write)
  /-- The process dies between two appends. -/
  | crash

/-- One step.  Where no journal is open, there is nothing to append with. -/
def step : Step → World → Option World
  | .reopen, w => some { w with next := (openJournal w.file).toOption }
  | .append «at» entry write, w =>
    match w.next with
    | none => some w
    | some next =>
      let (result, file) := append next «at» entry write w.file
      some
        { file := file
          next := result.map (·.2)
          acknowledged := match result with
            | some (.ok id, _) => w.acknowledged ++ [⟨id, «at», entry⟩]
            | _ => w.acknowledged }
  | .crash, w => some { w with next := none }

/-- What a journal is for: a replay returns what was acknowledged, in order, under increasing ids.
-/
def Durable (w : World) : Prop :=
  ∃ records, readAll w.file = .ok records ∧ w.acknowledged.Sublist records ∧
    records.Pairwise (·.id < ·.id)

/-- The steps that keep a journal durable.  An append starts on a line of its own, and its counter
is ahead of every record in the file; what it writes reads back as the record; and where it is cut
off, it is between two characters. -/
def StepSafe (w : World) : Step → Prop
  | .append «at» entry write => ∀ next, w.next = some next →
      ∀ text, RecordJson.toString ⟨next, «at», entry⟩ = some text →
        Ended newline (w.file.getD []) ∧
        (∀ records, readAll w.file = .ok records → ∀ r ∈ records, r.id < next) ∧
        RecordJson.fromStr text = .ok ⟨next, «at», entry⟩ ∧
        ∀ n, write.cut = some n → ∃ fragment, fromUtf8 ((asBytes text).take n) = some fragment
  | _ => True

/-! ## The invariant -/

/-- The record is written as this text, and reads back. -/
def Written (record : Record) (text : String) : Prop :=
  RecordJson.toString record = some text ∧ RecordJson.fromStr text = .ok record

/-- The bytes of whole lines. -/
def onDisk (ws : List (Record × String)) : List UInt8 :=
  terminate newline (ws.map fun w => asBytes w.2)

/-- What may stand after the whole lines: the beginning of one more, or all of it but the newline.
-/
def Unfinished (records : List Record) (tail : List UInt8) : Prop :=
  tail ≠ [] → ∃ record text fragment, Written record text ∧ (∀ r ∈ records, r.id < record.id) ∧
    tail <+: asBytes text ∧ fromUtf8 tail = some fragment

/-- The invariant. -/
def Sound (w : World) : Prop :=
  ∃ ws tail, w.file.getD [] = onDisk ws ++ tail ∧ (∀ p ∈ ws, Written p.1 p.2) ∧
    (ws.map (·.1)).Pairwise (·.id < ·.id) ∧ w.acknowledged.Sublist (ws.map (·.1)) ∧
    Unfinished (ws.map (·.1)) tail

theorem sound_new : Sound World.new :=
  ⟨[], [], rfl, fun _ h => (nomatch h), List.Pairwise.nil, List.Sublist.refl _,
    fun h => absurd rfl h⟩

variable {ws : List (Record × String)} {record : Record} {text : String}

/-- A whole line more. -/
theorem sound_whole (hw : ∀ p ∈ ws, Written p.1 p.2) (hids : (ws.map (·.1)).Pairwise (·.id < ·.id))
    (hwritten : Written record text) (hlt : ∀ r ∈ ws.map (·.1), r.id < record.id)
    {next : Option Nat} {acknowledged : List Record}
    (hacknowledged : acknowledged.Sublist (ws.map (·.1) ++ [record])) :
    Sound ⟨some (onDisk ws ++ (asBytes text ++ [newline])), next, acknowledged⟩ := by
  refine ⟨ws ++ [(record, text)], [], ?_, fun p hp => ?_, ?_, ?_, fun h => absurd rfl h⟩
  · rw [onDisk, onDisk, map_append, append_nil]
    exact (terminate_concat newline _ _).symm
  · rcases mem_append.1 hp with hp | hp
    · exact hw p hp
    · rw [mem_singleton.1 hp]
      exact hwritten
  · rw [map_append, pairwise_append]
    refine ⟨hids, pairwise_singleton .., fun r hr q hq => ?_⟩
    rw [mem_singleton.1 hq]
    exact hlt r hr
  · rw [map_append]
    exact hacknowledged

/-- The beginning of a line more, or all of it. -/
theorem sound_part (hw : ∀ p ∈ ws, Written p.1 p.2) (hids : (ws.map (·.1)).Pairwise (·.id < ·.id))
    (hwritten : Written record text) (hlt : ∀ r ∈ ws.map (·.1), r.id < record.id) {n : Nat}
    (hutf : ∃ fragment, fromUtf8 ((asBytes text).take n) = some fragment) {next : Option Nat}
    {acknowledged : List Record} (hacknowledged : acknowledged.Sublist (ws.map (·.1))) :
    Sound ⟨some (onDisk ws ++ (asBytes text ++ [newline]).take n), next, acknowledged⟩ := by
  by_cases hn : n ≤ (asBytes text).length
  · rw [take_append_of_le_length hn]
    obtain ⟨fragment, hfragment⟩ := hutf
    exact ⟨ws, (asBytes text).take n, rfl, hw, hids, hacknowledged, fun _ =>
      ⟨record, text, fragment, hwritten, hlt, take_prefix .., hfragment⟩⟩
  · rw [take_of_length_le (by rw [length_append, length_singleton]; omega)]
    exact sound_whole hw hids hwritten hlt (hacknowledged.trans (sublist_append_left ..))

variable [LawfulRecordJson]

open LawfulRecordJson

theorem newline_not_mem (h : RecordJson.toString record = some text) : newline ∉ asBytes text := by
  intro hmem
  exact absurd (printable h _ hmem) (by decide)

/-- A whole line gives back its record. -/
theorem readLines_written (h : Written record text) (total index : Nat) (line : List UInt8)
    (hline : stripEol line = asBytes text) (rest : List (List UInt8)) :
    readLines total index (line :: rest) =
      (readLines total (index + 1) rest).map (record :: ·) := by
  rw [readLines, hline, fromUtf8_asBytes]
  simp only [notBlank h.1, h.2]
  rfl

theorem readLines_onDisk (h : ∀ p ∈ ws, Written p.1 p.2) (total index : Nat)
    (rest : List (List UInt8)) :
    readLines total index ((ws.map fun w => asBytes w.2).map (· ++ [newline]) ++ rest) =
      (readLines total (index + ws.length) rest).map (ws.map (·.1) ++ ·) := by
  induction ws generalizing index with
  | nil =>
    simp only [map_nil, nil_append, length_nil, Nat.add_zero]
    cases readLines total index rest <;> rfl
  | cons w ws ih =>
    obtain ⟨hw, hws⟩ := forall_mem_cons.1 h
    have hstrip := (stripEol_of_printable (printable hw.1)).2
    rw [map_cons, map_cons, cons_append, readLines_written hw _ _ _ hstrip, ih hws,
      length_cons, Nat.add_right_comm, Nat.add_assoc]
    cases readLines total (index + (ws.length + 1)) rest <;> rfl

variable {tail : List UInt8}

/-- What is read of an unfinished line: nothing, unless only the newline is missing. -/
theorem readLines_unfinished {records : List Record} (h : Unfinished records tail)
    (hpos : tail ≠ []) (total index : Nat) (hlast : index + 1 = total) :
    ∃ more, readLines total index [tail] = .ok more ∧ more.Pairwise (·.id < ·.id) ∧
      ∀ r ∈ records, ∀ q ∈ more, r.id < q.id := by
  obtain ⟨record, text, fragment, hw, hids, hpre, hutf⟩ := h hpos
  have hprintable : ∀ b ∈ tail, 0x20 ≤ b := fun b hb =>
    printable hw.1 b (hpre.subset hb)
  have hstrip := (stripEol_of_printable hprintable).1
  have hbytes := asBytes_of_fromUtf8 hutf
  by_cases hall : fragment = text
  · subst hall
    refine ⟨[record], ?_, pairwise_singleton .., fun r hr q hq => ?_⟩
    · rw [readLines_written hw _ _ _ (hstrip.trans hbytes.symm)]
      rfl
    · rw [mem_singleton.1 hq]
      exact hids r hr
  · obtain ⟨reason, hreason⟩ := unclosed hw.1 (hbytes ▸ hpre) hall
    refine ⟨[], ?_, List.Pairwise.nil, fun _ _ _ hq => nomatch hq⟩
    rw [readLines, hstrip, hutf]
    simp only [hreason, hlast]
    split <;> rfl

variable {file : Option (List UInt8)}

/-- What is read of a file: its whole lines, and then the rest of it. -/
theorem readAll_eq (hw : ∀ p ∈ ws, Written p.1 p.2) (hfile : file.getD [] = onDisk ws ++ tail) :
    readAll file = (readLines (ws.length + (splitInclusive newline tail).length) ws.length
      (splitInclusive newline tail)).map (ws.map (·.1) ++ ·) := by
  have hread : readAll file = readLines (splitInclusive newline (onDisk ws ++ tail)).length 0
      (splitInclusive newline (onDisk ws ++ tail)) := by
    rw [← hfile]
    cases file <;> rfl
  have hlines : ∀ line ∈ ws.map fun w => asBytes w.2, newline ∉ line := by
    intro line hline
    obtain ⟨w, hmem, rfl⟩ := mem_map.1 hline
    exact newline_not_mem (hw w hmem).1
  rw [hread, onDisk, splitInclusive_terminate hlines, readLines_onDisk hw, length_append,
    length_map, length_map, Nat.zero_add]

/-- Whole lines are read back as they were written. -/
theorem readAll_whole (hw : ∀ p ∈ ws, Written p.1 p.2) (hfile : file.getD [] = onDisk ws) :
    readAll file = .ok (ws.map (·.1)) := by
  rw [readAll_eq hw (hfile.trans (append_nil _).symm)]
  exact congrArg Except.ok (append_nil _)

/-- **What is read back**: every whole line, and perhaps one record more. -/
theorem readAll_onDisk (hw : ∀ p ∈ ws, Written p.1 p.2)
    (hids : (ws.map (·.1)).Pairwise (·.id < ·.id)) (htail : Unfinished (ws.map (·.1)) tail)
    (hfile : file.getD [] = onDisk ws ++ tail) :
    ∃ more, readAll file = .ok (ws.map (·.1) ++ more) ∧
      (ws.map (·.1) ++ more).Pairwise (·.id < ·.id) := by
  by_cases hnil : tail = []
  · subst hnil
    rw [append_nil] at hfile
    exact ⟨[], by rw [append_nil, readAll_whole hw hfile], (append_nil _).symm ▸ hids⟩
  obtain ⟨record, text, fragment, hwritten, -, hpre, -⟩ := htail hnil
  have hnot : newline ∉ tail := fun hmem => newline_not_mem hwritten.1 (hpre.subset hmem)
  obtain ⟨more, hmore, hincreasing, hlt⟩ := readLines_unfinished htail hnil _ ws.length rfl
  refine ⟨more, ?_, pairwise_append.2 ⟨hids, hincreasing, hlt⟩⟩
  rw [readAll_eq hw hfile, splitInclusive_unfinished hnot hnil, length_singleton, hmore]
  rfl

theorem Sound.durable {w : World} (h : Sound w) : Durable w := by
  obtain ⟨ws, tail, hfile, hw, hids, hacknowledged, htail⟩ := h
  obtain ⟨more, hread, hincreasing⟩ := readAll_onDisk hw hids htail hfile
  exact ⟨_, hread, hacknowledged.trans (sublist_append_left ..), hincreasing⟩

/-! ## One step -/

/-- An append adds a line, or the beginning of one. -/
theorem sound_append {w : World} (h : Sound w) {next : Nat} {«at» : Int} {entry : JournalEntry}
    {write : Write} (hnext : w.next = some next) (hsafe : StepSafe w (.append «at» entry write)) :
    ∃ w', step (.append «at» entry write) w = some w' ∧ Sound w' := by
  rw [step, hnext]
  cases htext : RecordJson.toString ⟨next, «at», entry⟩ with
  | none =>
    refine ⟨_, rfl, ?_⟩
    simp only [htext]
    exact h
  | some text =>
    obtain ⟨hended, hahead, hreads, hcut⟩ := hsafe next hnext text htext
    obtain ⟨ws, tail, hfile, hw, hids, hacknowledged, htail⟩ := h
    have hwritten : Written ⟨next, «at», entry⟩ text := ⟨htext, hreads⟩
    -- there is nothing unfinished
    have htail' : tail = [] := by
      by_contra hne
      obtain ⟨_, _, _, hwritten', -, hpre, -⟩ := htail hne
      rw [hfile] at hended
      exact hne ((ended_terminate_append_iff _
        fun hmem => newline_not_mem hwritten'.1 (hpre.subset hmem)).1 hended)
    obtain ⟨more, hread, -⟩ := readAll_onDisk hw hids htail hfile
    have hlt : ∀ r ∈ ws.map (·.1), r.id < next := fun r hr =>
      hahead _ hread r (mem_append_left _ hr)
    rw [htail', append_nil] at hfile
    refine ⟨_, rfl, ?_⟩
    simp only [htext, hfile]
    cases write with
    | done => exact sound_whole hw hids hwritten hlt (hacknowledged.append (List.Sublist.refl _))
    | notOpened =>
      exact ⟨ws, [], by rw [hfile, append_nil], hw, hids, hacknowledged, fun h => absurd rfl h⟩
    | torn n => exact sound_part hw hids hwritten hlt (hcut n rfl) hacknowledged
    | unsynced =>
      exact sound_whole hw hids hwritten hlt (hacknowledged.trans (sublist_append_left ..))
    | crashed n => exact sound_part hw hids hwritten hlt (hcut n rfl) hacknowledged

/-- **The step lemma.** -/
theorem sound_step {w : World} (h : Sound w) {i : Step} (hsafe : StepSafe w i) :
    ∃ w', step i w = some w' ∧ Sound w' := by
  cases i with
  | reopen => exact ⟨_, rfl, h⟩
  | crash => exact ⟨_, rfl, h⟩
  | append «at» entry write =>
    cases hnext : w.next with
    | none => exact ⟨w, by rw [step, hnext], h⟩
    | some next => exact sound_append h hnext hsafe

/-- **The journal is durable.**  In every run whose steps are all `StepSafe` — whatever writes fail
or are cut off, and however often the journal is opened again — every replay, at every moment,
returns all that was acknowledged, in order and under increasing ids. -/
theorem journal_durable (steps : List Step) (h : EveryStep step StepSafe steps World.new) :
    Always step Durable steps World.new :=
  (always_of_step (fun _ _ hsound hsafe => sound_step hsound hsafe) sound_new h).mono
    fun _ hsound => hsound.durable

end

/-! ### A torn line, and what is written after it -/

/-- What `serde_json` writes for a `scratch_delete` of a plain key, at the epoch. -/
def scratchDeleteText (id key : String) : String :=
  "\x7b\"id\":" ++ id ++ ",\"at\":0,\"entry\":\x7b\"kind\":\"scratch_delete\",\"key\":" ++
    SerdeJson.quote key ++ "\x7d\x7d"

/-- The records of the examples, and their texts. -/
def sampleRecords : List (Record × String) :=
  [(⟨0, 0, .scratchDelete "a"⟩, scratchDeleteText "0" "a"),
    (⟨1, 0, .scratchDelete "b"⟩, scratchDeleteText "1" "b"),
    (⟨1, 0, .scratchDelete "c"⟩, scratchDeleteText "1" "c")]

/-- `serde_json` on the records of the examples, and on the beginnings of their texts. -/
abbrev RecordJson.sample : RecordJson where
  toString record :=
    (sampleRecords.find? fun p => p.1.id == record.id && p.1.at == record.at &&
      match p.1.entry, record.entry with
      | .scratchDelete key, .scratchDelete key' => key == key'
      | _, _ => false).map (·.2)
  fromStr text :=
    match sampleRecords.find? (·.2 == text) with
    | some p => .ok p.1
    | none => .error "EOF while parsing an object"

theorem sample_toString {record : Record} {text : String}
    (h : RecordJson.sample.toString record = some text) : text ∈ sampleRecords.map (·.2) := by
  obtain ⟨p, hp, rfl⟩ := Option.map_eq_some_iff.1 h
  exact mem_map_of_mem (mem_of_find?_eq_some hp)

instance : @LawfulRecordJson RecordJson.sample :=
  letI := RecordJson.sample
  { printable := fun h => by
      have hall : ∀ text ∈ sampleRecords.map (·.2), ∀ b ∈ asBytes text, 0x20 ≤ b := by
        decide +kernel
      exact hall _ (sample_toString h)
    notBlank := fun h => by
      have hall : ∀ text ∈ sampleRecords.map (·.2), isBlank text = false := by decide +kernel
      exact hall _ (sample_toString h)
    unclosed := fun {record text fragment} h hpre hne => by
      have hall : ∀ text ∈ sampleRecords.map (·.2), ∀ fragment ∈ sampleRecords.map (·.2),
          asBytes fragment <+: asBytes text → fragment = text := by decide +kernel
      have hnone : sampleRecords.find? (·.2 == fragment) = none := by
        rw [List.find?_eq_none]
        intro p hp heq
        have hmem : fragment ∈ sampleRecords.map (·.2) :=
          List.mem_map.2 ⟨p, hp, by simpa using heq⟩
        exact hne (hall text (sample_toString h) fragment hmem hpre)
      refine ⟨"EOF while parsing an object", ?_⟩
      simp only [RecordJson.fromStr, hnone] }

/-- A process dies in the middle of an append, and the journal is opened again. -/
theorem torn_tail_durable :
    letI := RecordJson.sample
    Always step Durable [.reopen, .append 0 (.scratchDelete "a") .done,
      .append 0 (.scratchDelete "b") (.crashed 10), .reopen] World.new := by
  let _ := RecordJson.sample
  refine journal_durable _ ⟨trivial, ?_⟩
  rintro w₁ ⟨⟩
  have hfirst : RecordJson.toString ⟨0, 0, .scratchDelete "a"⟩ = some (scratchDeleteText "0" "a") :=
    rfl
  have hsecond : RecordJson.toString ⟨1, 0, .scratchDelete "b"⟩ = some (scratchDeleteText "1" "b") :=
    rfl
  refine ⟨?_, ?_⟩
  · rintro _ ⟨⟩ text htext
    cases hfirst.symm.trans htext
    refine ⟨.inl rfl, fun _ hread r hr => ?_, rfl, fun _ hcut => nomatch hcut⟩
    cases hread
    cases hr
  intro w₂ hw₂
  let ws : List (Record × String) := [(⟨0, 0, .scratchDelete "a"⟩, scratchDeleteText "0" "a")]
  have hwritten : ∀ p ∈ ws, Written p.1 p.2 := by
    intro p hp
    rw [List.mem_singleton.1 hp]
    exact ⟨rfl, rfl⟩
  have hw₂ : w₂ = ⟨some (onDisk ws), some 1, ws.map (·.1)⟩ := (Option.some.inj hw₂).symm
  subst hw₂
  refine ⟨?_, fun _ _ => ⟨trivial, fun _ _ => trivial⟩⟩
  rintro _ ⟨⟩ text htext
  cases hsecond.symm.trans htext
  refine ⟨?_, fun records hread r hr => ?_, rfl, ?_⟩
  · exact ended_terminate newline _
  · have hwhole : readAll (some (onDisk ws)) = .ok (ws.map (·.1)) := readAll_whole hwritten rfl
    cases hwhole.symm.trans hread
    rw [List.mem_singleton.1 hr]
    decide
  · rintro _ ⟨⟩
    exact ⟨"\x7b\"id\":1,\"a", by decide +kernel⟩

/-- What is appended after a torn line is lost, although it was acknowledged. -/
theorem line_after_torn_tail_is_lost :
    letI := RecordJson.sample
    ¬ Always step Durable [.reopen, .append 0 (.scratchDelete "a") .done,
      .append 0 (.scratchDelete "b") (.crashed 10), .reopen,
      .append 0 (.scratchDelete "c") .done] World.new := by
  let _ := RecordJson.sample
  intro h
  obtain ⟨w, hw, records, hread, hsublist, -⟩ := h.final
  have hlengths : (runAll step [.reopen, .append 0 (.scratchDelete "a") .done,
      .append 0 (.scratchDelete "b") (.crashed 10), .reopen,
      .append 0 (.scratchDelete "c") .done] World.new).map (fun w =>
        ((readAll w.file).toOption.map List.length, w.acknowledged.length)) = some (some 1, 2) := by
    decide +kernel
  rw [hw, Option.map_some, hread] at hlengths
  obtain ⟨hread', hacknowledged⟩ := Prod.mk.inj (Option.some.inj hlengths)
  have hle := hsublist.length_le
  rw [Option.some.inj hread', hacknowledged] at hle
  exact absurd hle (by decide)

end Journal
end Gen2
