import Gen2.Lib.Lines
import Gen2.Lib.Run
import Gen2.Types.Message

/-!
# Requests to a tool server

The client of `mcp/client.rs`: JSON-RPC, a frame a line, over the two pipes of a child process.  One
request is under way at a time, the answer is told from the other lines by the id it carries, and
both the write and every read may time out.

* `Connection.step` is one step of the client or of the server.  The server sends what the protocol
  allows it to: answers to requests that were made, in any order and however late, notifications,
  and requests of its own under ids of its own.
* `Kept` is what the caller relies on: whatever a request returned was sent for that request or says
  that the time was up or the connection closed, no id is used twice, and the server was written
  whole frames.
* `Safe` says of a step that it keeps this: no write is cut inside a frame, and no frame is read
  that the client takes for something else.
* `kept_iff_safe` is the exact rule for whole runs.
-/

namespace Gen2
namespace Mcp

open Lib List

/-! ## Frames -/

/-- `\n`. -/
def newline : UInt8 := 0x0a

/-- What the client uses of `serde_json`. -/
class Serde where
  /-- The bytes of `serde_json::to_string`. -/
  toBytes : Json → List UInt8
  /-- A line feed inside a string is written as an escape. -/
  newline_notMem : ∀ j, newline ∉ toBytes j
  /-- Whether `from_str` reads a text of the value back: it is not nested deeper than it allows. -/
  readable : Json → Bool
  /-- The text of its error. -/
  errorText : Json → String

/-- A JSON-RPC error object. -/
structure JsonRpcError where
  code : Int
  message : String
  data : Option Json

/-- What a server answers a request with. -/
inductive Answer
  | result (value : Json)
  | error (err : JsonRpcError)

/-- A frame from the server.  An answer to a line the server could not read has no id. -/
inductive ServerFrame
  | response (id : Option Nat) (answer : Answer)
  | notification (method : String) (params : Option Json)
  | request (id : Json) (method : String) (params : Option Json)

/-- The number an id is. -/
def idJson (id : Nat) : Json := .number (.posInt id)

/-- The number an error code is. -/
def codeJson (code : Int) : Json :=
  if 0 ≤ code then .number (.posInt code.toNat) else .number (.negInt code)

/-- A field that may be left out. -/
def optional (key : String) (value : Option Json) : List (String × Json) :=
  value.toList.map (key, ·)

def JsonRpcError.json (err : JsonRpcError) : Json :=
  .object ([("code", codeJson err.code), ("message", .string err.message)]
    ++ optional "data" err.data)

def Answer.field : Answer → String × Json
  | result value => ("result", value)
  | error err => ("error", err.json)

/-- A frame as it is sent. -/
def ServerFrame.json : ServerFrame → Json
  | response id answer =>
    .object [("jsonrpc", .string "2.0"), ("id", (id.map idJson).getD .null), answer.field]
  | notification method params =>
    .object ([("jsonrpc", .string "2.0"), ("method", .string method)] ++ optional "params" params)
  | request id method params =>
    .object ([("jsonrpc", .string "2.0"), ("id", id), ("method", .string method)]
      ++ optional "params" params)

/-- `JsonRpcRequest`, as it is written. -/
def requestFrame (id : Nat) (method : String) (params : Json) : Json :=
  .object [("jsonrpc", .string "2.0"), ("id", idJson id), ("method", .string method),
    ("params", params)]

/-- `JsonRpcNotification`, as it is written. -/
def notificationFrame (method : String) (params : Json) : Json :=
  .object [("jsonrpc", .string "2.0"), ("method", .string method), ("params", params)]

/-! ## Reading a frame -/

/-- `JsonRpcResponse`. -/
structure JsonRpcResponse where
  id : Json
  result : Option Json
  error : Option JsonRpcError

/-- An `i32` from a number. -/
def asI32 : Json → Option Int
  | .number (.posInt n) => if n < 2 ^ 31 then some n else none
  | .number (.negInt z) => if -2 ^ 31 ≤ z then some z else none
  | _ => none

/-- An `Option<Value>` from a field, where `null` and no field are both none. -/
def present : Option Json → Option Json
  | none | some .null => none
  | some value => some value

/-- `JsonRpcError::deserialize`. -/
def JsonRpcError.ofJson : Json → Option JsonRpcError
  | .object fields => do
    let code ← (fields.lookup "code").bind asI32
    match fields.lookup "message" with
    | some (.string message) => some ⟨code, message, present (fields.lookup "data")⟩
    | _ => none
  | _ => none

/-- `JsonRpcResponse::deserialize`, on an object: a field that is missing or `null` is none, one
that is of the wrong shape is an error, and other fields are not looked at. -/
def JsonRpcResponse.ofJson : Json → Option JsonRpcResponse
  | .object fields => do
    match present (fields.lookup "jsonrpc") with
    | none | some (.string _) =>
      let id := (fields.lookup "id").getD .null
      let result := present (fields.lookup "result")
      match present (fields.lookup "error") with
      | none => some ⟨id, result, none⟩
      | some err =>
        let err ← JsonRpcError.ofJson err
        some ⟨id, result, some err⟩
    | _ => none
  | _ => none

theorem asI32_codeJson (code : Int) :
    asI32 (codeJson code) = if -2 ^ 31 ≤ code ∧ code < 2 ^ 31 then some code else none := by
  rw [codeJson]
  by_cases hpos : 0 ≤ code
  · obtain ⟨n, rfl⟩ := Int.eq_ofNat_of_zero_le hpos
    rw [if_pos hpos, asI32]
    by_cases hlt : n < 2 ^ 31
    · rw [Int.toNat_natCast, if_pos hlt, if_pos ⟨by omega, by omega⟩]
    · rw [Int.toNat_natCast, if_neg hlt, if_neg (by omega)]
  · rw [if_neg hpos, asI32]
    by_cases hge : -2 ^ 31 ≤ code
    · rw [if_pos hge, if_pos ⟨hge, by omega⟩]
    · rw [if_neg hge, if_neg (by omega)]

@[simp] theorem lookup_optional_self (key : String) (value : Option Json) :
    (optional key value).lookup key = value := by
  cases value <;> simp [optional]

@[simp] theorem lookup_optional_ne {key key' : String} (h : (key == key') = false)
    (value : Option Json) : (optional key' value).lookup key = none := by
  cases value with
  | none => rfl
  | some v => simp [optional, lookup_cons, h]

theorem JsonRpcError.ofJson_json (err : JsonRpcError) :
    JsonRpcError.ofJson err.json = if -2 ^ 31 ≤ err.code ∧ err.code < 2 ^ 31
      then some ⟨err.code, err.message, present err.data⟩ else none := by
  simp only [JsonRpcError.json, JsonRpcError.ofJson]
  have hcode : ([("code", codeJson err.code), ("message", Json.string err.message)]
      ++ optional "data" err.data).lookup "code" = some (codeJson err.code) := rfl
  have hmessage : ([("code", codeJson err.code), ("message", Json.string err.message)]
      ++ optional "data" err.data).lookup "message" = some (.string err.message) := rfl
  have hdata : ([("code", codeJson err.code), ("message", Json.string err.message)]
      ++ optional "data" err.data).lookup "data" = err.data := by
    simp [lookup_cons]
  rw [hcode, hmessage, hdata, Option.bind_some, asI32_codeJson]
  split <;> rfl

/-- What the client reads of a frame that it can read. -/
theorem JsonRpcResponse.ofJson_json (f : ServerFrame) :
    JsonRpcResponse.ofJson f.json = match f with
      | .response id (.result value) => some ⟨(id.map idJson).getD .null, present (some value),
        none⟩
      | .response id (.error err) => if -2 ^ 31 ≤ err.code ∧ err.code < 2 ^ 31
          then some
            ⟨(id.map idJson).getD .null, none, some ⟨err.code, err.message, present err.data⟩⟩
          else none
      | .notification _ _ => some ⟨.null, none, none⟩
      | .request id _ _ => some ⟨id, none, none⟩ := by
  cases f with
  | response id answer =>
    cases answer with
    | result value => rfl
    | error err =>
      have hread : JsonRpcResponse.ofJson (ServerFrame.response id (.error err)).json
          = (JsonRpcError.ofJson err.json).bind fun err =>
            some ⟨(id.map idJson).getD .null, none, some err⟩ := rfl
      rw [hread, JsonRpcError.ofJson_json]
      dsimp only
      split <;> rfl
  | notification method params =>
    simp [ServerFrame.json, JsonRpcResponse.ofJson, lookup_cons, present]
  | request id method params =>
    simp [ServerFrame.json, JsonRpcResponse.ofJson, lookup_cons, present]

/-! ## The client -/

/-- `McpError`, of a connection that is up. -/
inductive McpError
  | io (text : String)
  | timeout
  | serverClosed
  | protocol (text : String)
  | rpc (code : Int) (message : String)

/-- A line of the server's output. -/
inductive Line
  | blank
  | frame (f : ServerFrame)

/-- What `request` does with a response: go on to the next line, or return. -/
def correlate (id : Nat) (resp : JsonRpcResponse) : Option (Except McpError Json) :=
  if resp.id != idJson id then none
  else match resp.error with
    | some err => some (.error (.rpc err.code err.message))
    | none => match resp.result with
      | some value => some (.ok value)
      | none => some (.error (.protocol "response had neither result nor error"))

theorem idJson_bne (k id : Nat) : (idJson k != idJson id) = (k != id) := rfl

/-- A frame without an id is nobody's. -/
theorem correlate_null (id : Nat) (result : Option Json) (error : Option JsonRpcError) :
    correlate id ⟨.null, result, error⟩ = none := rfl

/-- Only the frame with the id of the request is looked into. -/
theorem correlate_idJson (id : Nat) (k : Option Nat) (result : Option Json)
    (error : Option JsonRpcError) :
    correlate id ⟨(k.map idJson).getD .null, result, error⟩
      = if k = some id then correlate id ⟨idJson id, result, error⟩ else none := by
  cases k with
  | none => rfl
  | some k =>
    by_cases hk : k = id
    · subst hk
      rw [if_pos rfl]
      rfl
    · rw [if_neg (fun h => hk (Option.some.inj h))]
      exact if_pos ((idJson_bne k id).trans (bne_iff_ne.2 hk))

theorem correlate_self (id : Nat) (result : Option Json) (error : Option JsonRpcError) :
    correlate id ⟨idJson id, result, error⟩ = match error with
      | some err => some (.error (.rpc err.code err.message))
      | none => match result with
        | some value => some (.ok value)
        | none => some (.error (.protocol "response had neither result nor error")) :=
  if_neg (by rw [idJson_bne, bne_self_eq_false]; exact Bool.false_ne_true)

theorem present_some {value : Json} (h : present (some value) ≠ none) :
    present (some value) = some value := by
  cases value <;> first | rfl | exact absurd rfl h

section
variable [Serde]

/-- What `request` does with a line. -/
def readLine (id : Nat) : Line → Option (Except McpError Json)
  | .blank => none
  | .frame f =>
    match if Serde.readable f.json then JsonRpcResponse.ofJson f.json else none with
    | some resp => correlate id resp
    | none => some (.error (.protocol ("malformed server frame: " ++ Serde.errorText f.json)))

/-- How a write ends: all of it is accepted and flushed, or it is given up after the pipe took some
bytes, because the time is up or the pipe fails. -/
inductive Write
  | done
  | timedOut (accepted : Nat)
  | failed (accepted : Nat) (text : String)

/-- The client, the two pipes, and what has been asked, sent and returned so far. -/
structure Connection where
  nextId : Nat
  /-- The request that is reading. -/
  waiting : Option Nat
  /-- The bytes the pipe has taken. -/
  stdin : List UInt8
  /-- The lines that are not read yet. -/
  stdout : List Line
  issued : List Nat
  answers : List (Nat × Answer)
  returned : List (Nat × Except McpError Json)

namespace Connection

/-- `McpClient::spawn`. -/
def spawn : Connection := ⟨1, none, [], [], [], [], []⟩

/-- A new request takes the next id. -/
def issue (s : Connection) : Connection :=
  { s with nextId := s.nextId + 1, issued := s.nextId :: s.issued }

/-- A request has been written, and reads. -/
def await (s : Connection) (id : Nat) : Connection := { s with waiting := some id }

/-- `next_line` takes a line off the pipe. -/
def nextLine (s : Connection) (rest : List Line) : Connection := { s with stdout := rest }

/-- The server puts a line on the pipe. -/
def put (s : Connection) (line : Line) : Connection := { s with stdout := s.stdout ++ [line] }

/-- A request returns. -/
def finish (s : Connection) (id : Nat) (out : Except McpError Json) : Connection :=
  { s with waiting := none, returned := (id, out) :: s.returned }

/-- `write_frame`.  A write that is given up has put a beginning of the line on the pipe. -/
def writeFrame (s : Connection) (frame : Json) (w : Write) : Connection × Except McpError Unit :=
  let line := Serde.toBytes frame ++ [newline]
  match w with
  | .done => ({ s with stdin := s.stdin ++ line }, .ok ())
  | .timedOut accepted => ({ s with stdin := s.stdin ++ line.take accepted }, .error .timeout)
  | .failed accepted text => ({ s with stdin := s.stdin ++ line.take accepted }, .error (.io text))

end Connection

/-- A step of the client or of the server. -/
inductive Act
  /-- `request`, up to the first read. -/
  | request (method : String) (params : Json) (w : Write)
  /-- `notify`. -/
  | notify (method : String) (params : Json) (w : Write)
  /-- The request that waits gets a line. -/
  | read
  | readTimeout
  | readFails (text : String)
  /-- The server's output is at its end. -/
  | readEnd
  | sends (f : ServerFrame)
  | sendsBlank

namespace Connection

/-- One step, where it is possible: a caller has the connection to itself until its request returns,
and the server answers requests that were made. -/
def step : Act → Connection → Option Connection
  | .request method params w, s =>
    match s.waiting with
    | some _ => none
    | none =>
      match s.issue.writeFrame (requestFrame s.nextId method params) w with
      | (s', .ok ()) => some (s'.await s.nextId)
      | (s', .error e) => some (s'.finish s.nextId (.error e))
  | .notify method params w, s =>
    match s.waiting with
    | some _ => none
    | none => some (s.writeFrame (notificationFrame method params) w).1
  | .read, s =>
    match s.waiting, s.stdout with
    | some id, line :: rest =>
      match readLine id line with
      | none => some (s.nextLine rest)
      | some out => some ((s.nextLine rest).finish id out)
    | _, _ => none
  | .readTimeout, s => s.waiting.map fun id => s.finish id (.error .timeout)
  | .readFails text, s => s.waiting.map fun id => s.finish id (.error (.io text))
  | .readEnd, s =>
    match s.waiting, s.stdout with
    | some id, [] => some (s.finish id (.error .serverClosed))
    | _, _ => none
  | .sends f, s =>
    match f with
    | .response (some k) answer =>
      if k ∈ s.issued then
        some { s.put (.frame f) with answers := (k, answer) :: s.answers }
      else none
    | _ => some (s.put (.frame f))
  | .sendsBlank, s => some (s.put .blank)

/-! ## What is kept -/

/-- What a request under `id` may return: what was sent for it, or that the time was up or the
connection closed. -/
def Own (answers : List (Nat × Answer)) (id : Nat) : Except McpError Json → Prop
  | .ok value => (id, .result value) ∈ answers
  | .error (.rpc code message) => ∃ data, (id, .error ⟨code, message, data⟩) ∈ answers
  | .error .timeout | .error .serverClosed | .error (.io _) => True
  | .error (.protocol _) => False

/-- What the caller and the server rely on. -/
structure Kept (s : Connection) : Prop where
  own : ∀ p ∈ s.returned, Own s.answers p.1 p.2
  /-- No id is used twice, so no answer is another request's. -/
  issued : s.issued.Nodup
  returned : (s.returned.map Prod.fst).Nodup ∧ ∀ p ∈ s.returned, p.1 ∈ s.issued
  frames : ∃ sent : List Json, s.stdin = terminate newline (sent.map Serde.toBytes)

/-- A line of `n` bytes is written whole, or not at all. -/
def Whole (n : Nat) : Write → Prop
  | .done => True
  | .timedOut accepted | .failed accepted _ => accepted = 0 ∨ n ≤ accepted

/-- A frame that is not taken for the answer to the request under `id` unless it is, and then for
the answer it is. -/
def Fitting (id : Nat) : ServerFrame → Prop
  | .response k (.result value) => k = some id → present (some value) ≠ none
  | .response _ (.error err) => -2 ^ 31 ≤ err.code ∧ err.code < 2 ^ 31
  | .notification _ _ => True
  | .request own _ _ => (own != idJson id) = true

/-- A line that the client can read while the request under `id` waits. -/
def Understood (id : Nat) : Line → Prop
  | .blank => True
  | .frame f => Serde.readable f.json ∧ Fitting id f

/-- The steps that keep what is relied on. -/
def Safe (s : Connection) : Act → Prop
  | .request method params w =>
    Whole (Serde.toBytes (requestFrame s.nextId method params) ++ [newline]).length w
  | .notify method params w =>
    Whole (Serde.toBytes (notificationFrame method params) ++ [newline]).length w
  | .read => ∀ id line rest, s.waiting = some id → s.stdout = line :: rest → Understood id line
  | _ => True

/-! ## One step -/

open Serde

/-- A line is understood exactly where what is made of it is the request's own. -/
theorem understood_iff {answers : List (Nat × Answer)} {id : Nat} {line : Line}
    (hsent : ∀ k answer, line = .frame (.response (some k) answer) → (k, answer) ∈ answers) :
    Understood id line ↔ ∀ out, readLine id line = some out → Own answers id out := by
  cases line with
  | blank => simp [Understood, readLine]
  | frame f =>
    by_cases hread : readable f.json = true
    · rw [Understood, readLine, if_pos hread, JsonRpcResponse.ofJson_json, and_iff_right hread]
      cases f with
      | response k answer =>
        cases answer with
        | result value =>
          simp only [Fitting, correlate_idJson, correlate_self]
          by_cases hk : k = some id
          · subst hk
            have hown := hsent id _ rfl
            by_cases hnull : present (some value) = none
            · simp [hnull, Own]
            · simp [present_some hnull, Own, hown]
          · simp [hk]
        | error err =>
          by_cases hcode : -2 ^ 31 ≤ err.code ∧ err.code < 2 ^ 31
          · simp only [Fitting, hcode, and_self, if_true, correlate_idJson, correlate_self,
            true_iff]
            by_cases hk : k = some id
            · subst hk
              have hown := hsent id _ rfl
              simp only [if_true, Option.some.injEq]
              rintro out rfl
              exact ⟨err.data, hown⟩
            · simp [hk]
          · simp only [Fitting, hcode, if_false, false_iff]
            exact fun h => h _ rfl
      | notification method params => simp [Fitting, correlate_null]
      | request own method params =>
        simp only [Fitting, correlate]
        by_cases hown : (own != idJson id) = true
        · simp [hown]
        · simp [hown, Own]
    · simp [Understood, readLine, hread, Own]

/-- What is so of every state: ids count up, a request that waits has not returned, and a response
on the pipe is among the answers that were sent. -/
structure Inv (s : Connection) : Prop where
  fresh : ∀ id ∈ s.issued, id < s.nextId
  known : ∀ p ∈ s.returned, p.1 ∈ s.issued
  waiting : ∀ id, s.waiting = some id → id ∈ s.issued ∧ ∀ p ∈ s.returned, p.1 ≠ id
  sent : ∀ k answer, .frame (.response (some k) answer) ∈ s.stdout → (k, answer) ∈ s.answers

variable {s s' : Connection} {id : Nat} {out : Except McpError Json}

omit [Serde] in
theorem Inv.finish (h : Inv s) (hid : id ∈ s.issued) (out : Except McpError Json) :
    Inv (s.finish id out) where
  fresh := h.fresh
  known := by
    rintro p hp
    rcases mem_cons.1 hp with rfl | hp
    · exact hid
    · exact h.known p hp
  waiting := nofun
  sent := h.sent

/-- A request that returns keeps what it has if what it returns is its own. -/
theorem kept_finish_iff (hid : id ∈ s.issued) (hnew : ∀ p ∈ s.returned, p.1 ≠ id) :
    Kept (s.finish id out) ↔ Kept s ∧ Own s.answers id out := by
  constructor
  · intro h
    refine ⟨⟨fun p hp => h.own p (mem_cons_of_mem _ hp), h.issued, ⟨?_, fun p hp => ?_⟩,
      h.frames⟩, h.own (id, out) mem_cons_self⟩
    · exact (nodup_cons.1 h.returned.1).2
    · exact h.returned.2 p (mem_cons_of_mem _ hp)
  · rintro ⟨h, hown⟩
    refine ⟨forall_mem_cons.2 ⟨hown, h.own⟩, h.issued, ⟨nodup_cons.2 ⟨?_, h.returned.1⟩,
      forall_mem_cons.2 ⟨hid, h.returned.2⟩⟩, h.frames⟩
    rintro hmem
    obtain ⟨p, hp, hpid⟩ := mem_map.1 hmem
    exact hnew p hp hpid

/-- A write touches nothing but the pipe. -/
theorem writeFrame_fst (s : Connection) (frame : Json) (w : Write) :
    ∃ stdin, (s.writeFrame frame w).1 = { s with stdin } := by
  cases w <;> exact ⟨_, rfl⟩

theorem Inv.write (h : Inv s) (frame : Json) (w : Write) : Inv (s.writeFrame frame w).1 := by
  obtain ⟨stdin, heq⟩ := writeFrame_fst s frame w
  rw [heq]
  exact ⟨h.fresh, h.known, h.waiting, h.sent⟩

/-- The pipe holds whole frames after a write exactly if the frame is whole. -/
theorem frames_write_iff {sent : List Json}
    (hsent : s.stdin = terminate newline (sent.map toBytes)) (frame : Json) (w : Write) :
    (∃ sent' : List Json,
        (s.writeFrame frame w).1.stdin = terminate newline (sent'.map toBytes))
      ↔ Whole (toBytes frame ++ [newline]).length w := by
  have hwhole : terminate newline (sent.map toBytes) ++ (toBytes frame ++ [newline])
      = terminate newline ((sent ++ [frame]).map toBytes) := by
    rw [map_append, map_singleton, terminate_concat]
  have hcut : ∀ n, (∃ sent' : List Json, s.stdin ++ (toBytes frame ++ [newline]).take n
      = terminate newline (sent'.map toBytes))
      ↔ n = 0 ∨ (toBytes frame ++ [newline]).length ≤ n := by
    intro n
    constructor
    · rintro ⟨sent', heq⟩
      rw [← ended_terminate_take_iff (sent.map toBytes) (newline_notMem frame), ← hsent,
        heq]
      exact ended_terminate newline _
    · rintro (rfl | hn)
      · exact ⟨sent, by rw [take_zero, append_nil, hsent]⟩
      · exact ⟨sent ++ [frame], by rw [take_of_length_le hn, hsent, hwhole]⟩
  cases w with
  | done => exact iff_of_true ⟨sent ++ [frame], by rw [← hwhole, ← hsent]; rfl⟩ trivial
  | timedOut n => exact hcut n
  | failed n text => exact hcut n

theorem kept_write_iff (h : Kept s) (frame : Json) (w : Write) :
    Kept (s.writeFrame frame w).1 ↔ Whole (toBytes frame ++ [newline]).length w := by
  obtain ⟨sent, hsent⟩ := h.frames
  rw [← frames_write_iff hsent frame w]
  obtain ⟨stdin, heq⟩ := writeFrame_fst s frame w
  rw [heq]
  exact ⟨fun h' => h'.frames, fun hframes => ⟨h.own, h.issued, h.returned, hframes⟩⟩

omit [Serde] in
theorem Inv.issue (h : Inv s) (hw : s.waiting = none) : Inv s.issue where
  fresh := by
    intro id hid
    rcases mem_cons.1 hid with rfl | hid
    · exact Nat.lt_succ_self _
    · exact Nat.lt_succ_of_lt (h.fresh id hid)
  known p hp := mem_cons_of_mem _ (h.known p hp)
  waiting id hid := by
    rw [show s.issue.waiting = s.waiting from rfl, hw] at hid
    cases hid
  sent := h.sent

theorem Kept.issue (hI : Inv s) (h : Kept s) : Kept s.issue where
  own := h.own
  issued := nodup_cons.2 ⟨fun hmem => absurd (hI.fresh _ hmem) (lt_irrefl _), h.issued⟩
  returned := ⟨h.returned.1, fun p hp => mem_cons_of_mem _ (h.returned.2 p hp)⟩
  frames := h.frames

/-- A write fails because the time is up or the connection is gone. -/
theorem own_of_write {frame : Json} {w : Write} {e : McpError}
    (h : (s.writeFrame frame w).2 = .error e) (answers : List (Nat × Answer)) (id : Nat) :
    Own answers id (.error e) := by
  cases w <;> cases h <;> trivial

/-- A line that is put on the pipe changes nothing of what is kept. -/
theorem put_spec {line : Line} (hI : Inv s)
    (hsent : ∀ k answer, line = .frame (.response (some k) answer) → (k, answer) ∈ s.answers) :
    Inv (s.put line) ∧ (Kept s → (Kept (s.put line) ↔ True)) := by
  refine ⟨⟨hI.fresh, hI.known, hI.waiting, fun k answer hmem => ?_⟩,
    fun h => iff_of_true ⟨h.own, h.issued, h.returned, h.frames⟩ trivial⟩
  rcases mem_append.1 hmem with hmem | hmem
  · exact hI.sent k answer hmem
  · exact hsent k answer (mem_singleton.1 hmem).symm

omit [Serde] in
theorem Own.mono {answers answers' : List (Nat × Answer)}
    (hsub : ∀ p ∈ answers, p ∈ answers') (h : Own answers id out) : Own answers' id out := by
  cases out with
  | ok value => exact hsub _ h
  | error e =>
    cases e with
    | rpc code message => exact h.imp fun data => hsub _
    | protocol text => exact h.elim
    | _ => trivial

theorem sends_spec {f : ServerFrame} (hI : Inv s) (hstep : step (.sends f) s = some s') :
    Inv s' ∧ (Kept s → (Kept s' ↔ True)) := by
  cases f with
  | response k answer =>
    cases k with
    | none =>
      obtain rfl := Option.some.inj hstep
      exact put_spec hI nofun
    | some k =>
      simp only [step] at hstep
      split at hstep
      · obtain rfl := Option.some.inj hstep
        have hI' : Inv { s with answers := (k, answer) :: s.answers } :=
          ⟨hI.fresh, hI.known, hI.waiting, fun k' answer' hmem =>
            mem_cons_of_mem _ (hI.sent k' answer' hmem)⟩
        have hsent : ∀ k' answer', Line.frame (.response (some k) answer)
            = .frame (.response (some k') answer') → (k', answer') ∈ (k, answer) :: s.answers := by
          rintro k' answer' heq
          cases heq
          exact mem_cons_self
        obtain ⟨hput, hiff⟩ := put_spec hI' hsent
        refine ⟨hput, fun h => hiff ⟨fun p hp => ?_, h.issued, h.returned, h.frames⟩⟩
        exact (h.own p hp).mono fun _ => mem_cons_of_mem _
      · cases hstep
  | notification method params =>
    obtain rfl := Option.some.inj hstep
    exact put_spec hI nofun
  | request own method params =>
    obtain rfl := Option.some.inj hstep
    exact put_spec hI nofun

/-- What a line that is read does to what is kept. -/
theorem step_read {line : Line} {rest : List Line} (hI : Inv s) (hw : s.waiting = some id)
    (hline : s.stdout = line :: rest) (hstep : step .read s = some s') :
    Inv s' ∧ (Kept s → (Kept s' ↔ Understood id line)) := by
  have hsent : ∀ k answer, line = .frame (.response (some k) answer) → (k, answer) ∈ s.answers :=
    fun k answer heq => hI.sent k answer (by rw [hline, heq]; exact mem_cons_self)
  have hI' : Inv (s.nextLine rest) :=
    ⟨hI.fresh, hI.known, hI.waiting,
      fun k answer hmem => hI.sent k answer (by rw [hline]; exact mem_cons_of_mem _ hmem)⟩
  obtain ⟨hid, hnew⟩ := hI.waiting id hw
  rw [understood_iff hsent]
  simp only [step, hw, hline] at hstep
  cases hread : readLine id line with
  | none =>
    simp only [hread, Option.some.injEq] at hstep
    subst hstep
    exact ⟨hI', fun h => iff_of_true ⟨h.own, h.issued, h.returned, h.frames⟩ nofun⟩
  | some out =>
    simp only [hread, Option.some.injEq] at hstep
    subst hstep
    refine ⟨hI'.finish hid out, fun h => ?_⟩
    have hkept : Kept (s.nextLine rest) := ⟨h.own, h.issued, h.returned, h.frames⟩
    rw [kept_finish_iff (s := s.nextLine rest) hid hnew, and_iff_right hkept]
    constructor
    · rintro hown out' heq
      rwa [← Option.some.inj heq]
    · intro hall
      exact hall out rfl

/-- What a request that gives up reading does to what is kept. -/
theorem finish_spec {e : McpError} (hI : Inv s) (hw : s.waiting = some id)
    (hown : Own s.answers id (.error e)) :
    Inv (s.finish id (.error e)) ∧ (Kept s → (Kept (s.finish id (.error e)) ↔ True)) := by
  obtain ⟨hid, hnew⟩ := hI.waiting id hw
  refine ⟨hI.finish hid _, fun h => iff_of_true ?_ trivial⟩
  exact (kept_finish_iff hid hnew).2 ⟨h, hown⟩

/-- What a request does to what is kept, as far as its first read. -/
theorem request_spec {method : String} {params : Json} {w : Write} (hI : Inv s)
    (hw : s.waiting = none)
    (hstep : (match s.issue.writeFrame (requestFrame s.nextId method params) w with
      | (s', .ok ()) => some (s'.await s.nextId)
      | (s', .error e) => some (s'.finish s.nextId (.error e))) = some s') :
    Inv s' ∧ (Kept s → (Kept s' ↔ Safe s (.request method params w))) := by
  have hI₁ := (hI.issue hw).write (requestFrame s.nextId method params) w
  have hkept (h : Kept s) := kept_write_iff (h.issue hI) (requestFrame s.nextId method params) w
  obtain ⟨stdin, hfst⟩ := writeFrame_fst s.issue (requestFrame s.nextId method params) w
  have hid : s.nextId ∈ { s.issue with stdin }.issued := mem_cons_self
  have hnew : ∀ p ∈ { s.issue with stdin }.returned, p.1 ≠ s.nextId :=
    fun p hp heq => absurd (hI.fresh _ (hI.known p hp)) (by rw [heq]; exact lt_irrefl _)
  rcases hwrite : s.issue.writeFrame (requestFrame s.nextId method params) w with ⟨s₁, out⟩
  simp only [hwrite] at hfst hI₁ hkept hstep
  subst hfst
  cases out with
  | ok u =>
    obtain rfl := Option.some.inj hstep
    refine ⟨⟨hI₁.fresh, hI₁.known, fun id hid' => ?_, hI₁.sent⟩, fun h => Iff.trans ?_ (hkept h)⟩
    · obtain rfl := Option.some.inj hid'
      exact ⟨hid, hnew⟩
    · exact ⟨fun h => ⟨h.own, h.issued, h.returned, h.frames⟩,
        fun h => ⟨h.own, h.issued, h.returned, h.frames⟩⟩
  | error e =>
    obtain rfl := Option.some.inj hstep
    refine ⟨hI₁.finish hid _, fun h => ?_⟩
    have hown := own_of_write (congrArg Prod.snd hwrite) s.answers s.nextId
    exact ((kept_finish_iff hid hnew).trans (and_iff_left hown)).trans (hkept h)

/-- **The step lemma.**  A step keeps what is kept exactly if it is safe. -/
theorem step_spec {a : Act} (hI : Inv s) (hstep : step a s = some s') :
    Inv s' ∧ (Kept s → (Kept s' ↔ Safe s a)) := by
  cases a with
  | request method params w =>
    cases hw : s.waiting with
    | some id => simp [step, hw] at hstep
    | none =>
      simp only [step, hw] at hstep
      exact request_spec hI hw hstep
  | notify method params w =>
    cases hw : s.waiting with
    | some id => simp [step, hw] at hstep
    | none =>
      simp only [step, hw, Option.some.injEq] at hstep
      subst hstep
      exact ⟨hI.write _ w, fun h => kept_write_iff h _ w⟩
  | read =>
    cases hw : s.waiting with
    | none => simp [step, hw] at hstep
    | some id =>
      cases hline : s.stdout with
      | nil => simp [step, hw, hline] at hstep
      | cons line rest =>
        obtain ⟨hI', hiff⟩ := step_read hI hw hline hstep
        refine ⟨hI', fun h => (hiff h).trans ?_⟩
        simp [Safe, hw, hline]
  | readTimeout =>
    obtain ⟨id, hw, rfl⟩ := Option.map_eq_some_iff.1 hstep
    exact finish_spec hI hw trivial
  | readFails text =>
    obtain ⟨id, hw, rfl⟩ := Option.map_eq_some_iff.1 hstep
    exact finish_spec hI hw trivial
  | readEnd =>
    cases hw : s.waiting with
    | none => simp [step, hw] at hstep
    | some id =>
      cases hline : s.stdout with
      | cons line rest => simp [step, hw, hline] at hstep
      | nil =>
        simp only [step, hw, hline, Option.some.injEq] at hstep
        subst hstep
        exact finish_spec hI hw trivial
  | sends f => exact sends_spec hI hstep
  | sendsBlank =>
    obtain rfl := Option.some.inj hstep
    exact put_spec hI nofun

/-! ## Runs -/

omit [Serde] in
theorem inv_spawn : Inv spawn := ⟨nofun, nofun, nofun, nofun⟩

theorem kept_spawn : Kept spawn := ⟨nofun, nodup_nil, ⟨nodup_nil, nofun⟩, [], rfl⟩

/-- The step can be taken. -/
def Possible (s : Connection) (a : Act) : Prop := (step a s).isSome

/-- **Every call gets its own answer, and the server whole frames, exactly where every step is
safe**: no write is cut inside a frame, no request of the server's own is read while a request under
the same number waits, and every answer is one the client can read. -/
theorem kept_iff_safe {acts : List Act} (hpossible : EveryStep step Possible acts spawn) :
    Always step Kept acts spawn ↔ EveryStep step Safe acts spawn := by
  refine always_iff_everyStep (fun s a hI hp => ?_) (fun s a s' hI hkept _ hstep => ?_) inv_spawn
    kept_spawn hpossible
  · obtain ⟨s', hstep⟩ := Option.isSome_iff_exists.1 hp
    exact ⟨s', hstep, (step_spec hI hstep).1⟩
  · exact (step_spec hI hstep).2 hkept

end Connection
end

/-! ## Two runs -/

mutual
/-- Compact JSON, for text in which nothing needs an escape and numbers that are integers. -/
def print : Json → String
  | .null => "null"
  | .bool b => toString b
  | .number (.posInt n) => toString n
  | .number (.negInt z) => toString z
  | .number (.float _) => "0.0"
  | .string s => SerdeJson.quote s
  | .array items => "[" ++ ",".intercalate (printItems items) ++ "]"
  | .object fields => "\x7b" ++ ",".intercalate (printFields fields) ++ "\x7d"

def printItems : List Json → List String
  | [] => []
  | item :: rest => print item :: printItems rest

def printFields : List (String × Json) → List String
  | [] => []
  | (key, value) :: rest => (SerdeJson.quote key ++ ":" ++ print value) :: printFields rest
end

/-- `serde_json` on the frames of the examples. -/
abbrev plain : Serde where
  toBytes j := (asBytes (print j)).filter (· ≠ newline)
  newline_notMem j := by simp
  readable _ := true
  errorText _ := ""

namespace Connection

local instance : Serde := plain

/-- The first request is given up, its answer comes while the second waits, and the second gets its
own, behind a notification and a request of the server's. -/
def lateAnswer : List Act :=
  [.request "tools/list" (.object []) .done, .readTimeout,
    .request "tools/call" (.object []) .done,
    .sends (.response (some 1) (.result (.object []))),
    .sends (.notification "notifications/progress" none),
    .sends (.request (.string "s1") "ping" none),
    .sends (.response (some 2) (.error ⟨-32601, "unknown tool", none⟩)),
    .read, .read, .read, .read]

theorem kept_lateAnswer : Always step Kept lateAnswer spawn := by
  have hread : ∀ {s : Connection} {f : ServerFrame} {rest : List Line} {id : Nat},
      s.waiting = some id → s.stdout = .frame f :: rest → Fitting id f → Safe s .read := by
    intro s f rest id hw hline hfit id' line rest' hw' hline'
    rw [hw] at hw'
    rw [hline] at hline'
    cases hw'
    cases hline'
    exact ⟨rfl, hfit⟩
  have hall : EveryStep step (fun s a => Possible s a ∧ Safe s a) lateAnswer spawn :=
    .cons ⟨rfl, trivial⟩ rfl <| .cons ⟨rfl, trivial⟩ rfl <| .cons ⟨rfl, trivial⟩ rfl <|
    .cons ⟨rfl, trivial⟩ rfl <| .cons ⟨rfl, trivial⟩ rfl <| .cons ⟨rfl, trivial⟩ rfl <|
    .cons ⟨rfl, trivial⟩ rfl <| .cons ⟨rfl, hread rfl rfl nofun⟩ rfl <|
    .cons ⟨rfl, hread rfl rfl trivial⟩ rfl <| .cons ⟨rfl, hread rfl rfl rfl⟩ rfl <|
    .cons ⟨rfl, hread rfl rfl ⟨by decide, by decide⟩⟩ rfl trivial
  exact (kept_iff_safe (hall.mono fun _ _ h => h.1)).2 (hall.mono fun _ _ h => h.2)

/-- The server's own first request is numbered 1, as the client's is. -/
def sameNumber : List Act :=
  [.request "initialize" (.object []) .done, .sends (.request (idJson 1) "ping" none), .read]

theorem sameNumber_not_kept :
    EveryStep step Possible sameNumber spawn ∧ ¬ Always step Kept sameNumber spawn := by
  refine ⟨.cons rfl rfl <| .cons rfl rfl <| .cons rfl rfl trivial, fun h => ?_⟩
  obtain ⟨s, hrun, hkept⟩ := h.final
  have hreturned : s.returned
      = [(1, .error (.protocol "response had neither result nor error"))] := by
    cases hrun
    rfl
  exact hkept.own (1, .error (.protocol "response had neither result nor error"))
    (by rw [hreturned]; exact List.mem_cons_self)

end Connection
end Mcp
end Gen2
