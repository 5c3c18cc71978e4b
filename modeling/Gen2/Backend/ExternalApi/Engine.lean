import Gen2.Engine.Types
import Gen2.Lib.Run
import Gen2.Types.Text

/-!
# The remote engine

`backend/external_api/engine.rs`, and what `session.rs` sends: the address of a server, its key and
its format are cells of the engine, which a load writes, an unload clears and a session copies when
it starts.  A request is its address and its headers here; its body says nothing of credentials.

* `Engine.loadModel` writes the key and the format where the request brings them, before it asks
  the server for its models; so what a request does not bring is left from an earlier one, and a
  load that fails has written already.
* `Engine.loadModel_cases` says what a load does.
* `World` is the engine, the sessions that were started, and all that was sent, each with the load
  request that named the server.
* `credentials_iff`: along a run every request carries the key and the format of that load request,
  and a failed load leaves the settings, if and only if no load finds a key or a format that it does
  not bring, or fails with others than are set.
-/

namespace Gen2.ExternalApi

open Lib List

/-! ## Requests -/

/-- `LoadRequest`, by what this backend reads; a path that is not UTF-8 is `none`. -/
structure LoadRequest where
  modelPath : Option String
  apiKey : Option String := none
  apiFormat : Option String := none
  apiModel : Option String := none
  deriving DecidableEq

/-- A request to a server: the format it is made in, its address and its headers. -/
structure HttpRequest where
  format : String
  url : String
  headers : List (String × String)
  deriving DecidableEq

/-- What comes of `check.send()`: an answer with a status of success or without, or an error. -/
inductive Check
  | success
  | status
  | failed (e : String)

/-- What a load finds outside: how the server answers, and `PIO_EXTERNAL_MODEL_ID`. -/
structure Outside where
  check : Check
  externalModelId : Option String := none

/-- `trim_end_matches('/')`. -/
def trimEndSlashes (s : String) : String :=
  String.ofList (s.toList.reverse.dropWhile (· = '/')).reverse

/-! ## The engine -/

/-- `Engine`, without its client, its settings and its hooks. -/
structure Engine where
  serverUrl : String := ""
  modelId : String := ""
  apiKey : Option String := none
  apiFormat : String := "openai"
  loaded : Bool := false
  sessions : List Nat := []
  lastLoad : Option LoadRequest := none
  nextSessionId : Nat := 1

/-- `Session`, by what it sends. -/
structure Session where
  id : Nat
  serverUrl : String
  modelId : String
  apiKey : Option String
  apiFormat : String

/-- The header of the key in a chat request. -/
def keyHeaders (format : String) : Option String → List (String × String)
  | some key =>
    if format = "anthropic" then [("x-api-key", key), ("anthropic-version", "2023-06-01")]
    else [("Authorization", "Bearer " ++ key)]
  | none => []

/-- The request of `Session::pull`. -/
def Session.request (s : Session) : HttpRequest where
  format := s.apiFormat
  url := s.serverUrl ++ if s.apiFormat = "anthropic" then "/messages" else "/chat/completions"
  headers := [("Content-Type", "application/json"), ("Accept", "text/event-stream")] ++
    keyHeaders s.apiFormat s.apiKey

namespace Engine

/-- The check of `load_model`, which asks for the models. -/
def checkRequest (e : Engine) (baseUrl : String) : HttpRequest where
  format := e.apiFormat
  url := baseUrl ++ "/models"
  headers := match e.apiKey with
    | some key => [("Authorization", "Bearer " ++ key)]
    | none => []

/-- The end of `load_model`: the server is taken. -/
def taken (e : Engine) (o : Outside) (req : LoadRequest) (baseUrl : String) : Engine :=
  { e with
    serverUrl := baseUrl
    modelId := (req.apiModel.or o.externalModelId).getD ""
    loaded := true
    sessions := []
    lastLoad := some req }

/-- `load_model`: its result, the engine after it, and what it sends. -/
def loadModel (e : Engine) (o : Outside) (req : LoadRequest) :
    Except ExecError Unit × Engine × List HttpRequest :=
  match req.modelPath with
  | none => (.error (.other "invalid URL path"), e, [])
  | some url =>
    let baseUrl := trimEndSlashes url
    let e := match req.apiKey.filter (· ≠ "") with
      | some key => { e with apiKey := some key }
      | none => e
    let e := match req.apiFormat with
      | some format => { e with apiFormat := format }
      | none => e
    if e.apiFormat = "anthropic" then (.ok (), e.taken o req baseUrl, [])
    else
      match o.check with
      | .success | .status => (.ok (), e.taken o req baseUrl, [e.checkRequest baseUrl])
      | .failed err =>
        (.error (.other ("cannot connect to external server at " ++ baseUrl ++ "/models: " ++ err)),
          e, [e.checkRequest baseUrl])

/-- `reload_model`. -/
def reloadModel (e : Engine) (o : Outside) : Except ExecError Unit × Engine × List HttpRequest :=
  match e.lastLoad with
  | none => (.error .modelNotLoaded, e, [])
  | some req => e.loadModel o req

/-- `unload_model`. -/
def unloadModel (e : Engine) : Engine :=
  { e with loaded := false, serverUrl := "", modelId := "", apiKey := none, apiFormat := "openai" }

/-- `start_session`. -/
def startSession (e : Engine) : Except ExecError Session × Engine :=
  if e.loaded = false then (.error .modelNotLoaded, e)
  else
    (.ok ⟨e.nextSessionId, e.serverUrl, e.modelId, e.apiKey, e.apiFormat⟩,
      { e with nextSessionId := e.nextSessionId + 1, sessions := e.nextSessionId :: e.sessions })

end Engine

/-! ## What a load request asks for -/

namespace LoadRequest

/-- The key of a load request: an empty one is none. -/
def key (req : LoadRequest) : Option String := req.apiKey.filter (· ≠ "")

/-- The format of a load request: `"openai"` is the default. -/
def format (req : LoadRequest) : String := req.apiFormat.getD "openai"

end LoadRequest

/-- The headers of a request that have a key in them. -/
def HttpRequest.credentials (r : HttpRequest) : List (String × String) :=
  r.headers.filter fun h => h.1 = "Authorization" ∨ h.1 = "x-api-key"

/-- How a key is sent. -/
def credential (format key : String) : String × String :=
  if format = "anthropic" then ("x-api-key", key) else ("Authorization", "Bearer " ++ key)

/-- A request goes to the server that the load request named, with its key or none, and in its
format. -/
structure Carries (r : HttpRequest) (req : LoadRequest) : Prop where
  url : ∃ path end_, req.modelPath = some path ∧ r.url = trimEndSlashes path ++ end_
  format : r.format = req.format
  credentials : r.credentials = (req.key.map (credential req.format)).toList

namespace Engine

/-- The key and the format of the engine are those of the load request. -/
def Holds (e : Engine) (req : LoadRequest) : Prop := e.apiKey = req.key ∧ e.apiFormat = req.format

/-- What a load writes before the check. -/
def written (e : Engine) (req : LoadRequest) : Engine :=
  { e with apiKey := req.key.or e.apiKey, apiFormat := req.apiFormat.getD e.apiFormat }

/-- What a load does: it takes the server, and asks it for its models unless the format is
`"anthropic"`; or the server cannot be reached, and the key and the format are written. -/
theorem loadModel_cases (e : Engine) (o : Outside) {req : LoadRequest} {path : String}
    (hpath : req.modelPath = some path) :
    ((e.written req).apiFormat = "anthropic" ∧ e.loadModel o req =
      (.ok (), (e.written req).taken o req (trimEndSlashes path), [])) ∨
    ((e.written req).apiFormat ≠ "anthropic" ∧ (∀ err, o.check ≠ .failed err) ∧
      e.loadModel o req = (.ok (), (e.written req).taken o req (trimEndSlashes path),
        [(e.written req).checkRequest (trimEndSlashes path)])) ∨
    ((e.written req).apiFormat ≠ "anthropic" ∧ (∃ err, o.check = .failed err) ∧
      ∃ err, e.loadModel o req =
        (.error err, e.written req, [(e.written req).checkRequest (trimEndSlashes path)])) := by
  have hwritten : (match req.apiFormat with
      | some format => { (match req.apiKey.filter (· ≠ "") with
          | some key => { e with apiKey := some key }
          | none => e) with apiFormat := format }
      | none => (match req.apiKey.filter (· ≠ "") with
          | some key => { e with apiKey := some key }
          | none => e)) = e.written req := by
    rw [written, LoadRequest.key]
    cases req.apiFormat <;> cases req.apiKey.filter (· ≠ "") <;> rfl
  simp only [loadModel, hpath, hwritten]
  by_cases hformat : (e.written req).apiFormat = "anthropic"
  · exact .inl ⟨hformat, by rw [if_pos hformat]⟩
  rw [if_neg hformat]
  cases o.check with
  | success => exact .inr (.inl ⟨hformat, nofun, rfl⟩)
  | status => exact .inr (.inl ⟨hformat, nofun, rfl⟩)
  | failed err => exact .inr (.inr ⟨hformat, ⟨err, rfl⟩, _, rfl⟩)

/-- When a load may be made: the request brings its key, or none is set; it brings its format, or
the default is set; and where the server cannot be reached, both are what is set. -/
structure Takes (e : Engine) (o : Outside) (req : LoadRequest) : Prop where
  key : req.key ≠ none ∨ e.apiKey = none
  format : req.apiFormat ≠ none ∨ e.apiFormat = "openai"
  failed : (∃ err, o.check = .failed err) → req.format ≠ "anthropic" → e.Holds req

/-- A load writes what the request asks for where it brings it, or finds it set. -/
theorem written_holds_iff (e : Engine) (req : LoadRequest) : (e.written req).Holds req ↔
    (req.key ≠ none ∨ e.apiKey = none) ∧ (req.apiFormat ≠ none ∨ e.apiFormat = "openai") := by
  rw [Holds, written, LoadRequest.format]
  refine and_congr ?_ ?_
  · cases req.key <;> simp
  · cases req.apiFormat <;> simp

theorem checkRequest_carries_iff (e : Engine) {req : LoadRequest} {path : String}
    (hpath : req.modelPath = some path) (hformat : e.apiFormat ≠ "anthropic") :
    Carries (e.checkRequest (trimEndSlashes path)) req ↔ e.Holds req := by
  have hcredentials : (e.checkRequest (trimEndSlashes path)).credentials =
      (e.apiKey.map (credential e.apiFormat)).toList := by
    cases hkey : e.apiKey <;>
      simp [checkRequest, HttpRequest.credentials, credential, hkey, hformat]
  constructor
  · rintro ⟨-, hf, hkey⟩
    have hf : e.apiFormat = req.format := hf
    rw [hcredentials, ← hf] at hkey
    refine ⟨?_, hf⟩
    cases he : e.apiKey <;> cases hr : req.key <;>
      simp_all [credential]
  · rintro ⟨hkey, hf⟩
    exact ⟨⟨path, _, hpath, rfl⟩, hf, by rw [hcredentials, hkey, hf]⟩

end Engine

/-- The connection settings. -/
def Engine.connection (e : Engine) : String × String × Option String × String :=
  (e.serverUrl, e.modelId, e.apiKey, e.apiFormat)

namespace Engine

/-- Where the server is reached or not asked, a load may be made when it writes what the request
asks for. -/
theorem takes_iff_of_reached {e : Engine} {o : Outside} {req : LoadRequest}
    (h : (e.written req).apiFormat = "anthropic" ∨ ∀ err, o.check ≠ .failed err) :
    e.Takes o req ↔ (e.written req).Holds req := by
  rw [written_holds_iff]
  constructor
  · rintro ⟨hkey, hformat, -⟩
    exact ⟨hkey, hformat⟩
  intro hholds
  refine ⟨hholds.1, hholds.2, fun ⟨err, herr⟩ hne => ?_⟩
  rcases h with hanthropic | hreached
  · exact absurd (((written_holds_iff e req).mpr hholds).2.symm.trans hanthropic) hne
  · exact absurd herr (hreached err)

/-- Where it is not reached, the load must besides have written nothing new. -/
theorem takes_iff_of_failed {e : Engine} {o : Outside} {req : LoadRequest}
    (hformat : (e.written req).apiFormat ≠ "anthropic") (hfailed : ∃ err, o.check = .failed err) :
    e.Takes o req ↔
      (e.written req).Holds req ∧ (e.written req).connection = e.connection := by
  have hconnection : (e.written req).connection = e.connection ↔
      (e.written req).apiKey = e.apiKey ∧ (e.written req).apiFormat = e.apiFormat := by
    simp [connection, written]
  rw [hconnection]
  constructor
  · rintro ⟨hkey, hreq, hfails⟩
    have hholds := (written_holds_iff e req).mpr ⟨hkey, hreq⟩
    have hsame := hfails hfailed fun heq => hformat (hholds.2.trans heq)
    exact ⟨hholds, hholds.1.trans hsame.1.symm, hholds.2.trans hsame.2.symm⟩
  · rintro ⟨hholds, hkey, hfmt⟩
    obtain ⟨hbrings, hreq⟩ := (written_holds_iff e req).mp hholds
    exact ⟨hbrings, hreq, fun _ _ => ⟨hkey.symm.trans hholds.1, hfmt.symm.trans hholds.2⟩⟩

end Engine

/-- A session whose cells are those of a load request sends what that asks for. -/
theorem Session.request_carries {s : Session} {req : LoadRequest} {path : String}
    (hpath : req.modelPath = some path) (hurl : s.serverUrl = trimEndSlashes path)
    (hkey : s.apiKey = req.key) (hformat : s.apiFormat = req.format) : Carries s.request req := by
  refine ⟨⟨path, _, hpath, by rw [request, hurl]⟩, hformat, ?_⟩
  rw [request, HttpRequest.credentials, hkey, hformat]
  cases req.key with
  | none => rfl
  | some key => by_cases hanthropic : req.format = "anthropic" <;>
      simp [keyHeaders, credential, hanthropic]

/-! ## Runs -/

/-- The engine, the sessions that were started, and what was sent, each with the load request that
named its server.  `kept` is that no load that failed has changed the connection. -/
structure World where
  engine : Engine := {}
  sessions : List (Session × LoadRequest) := []
  sent : List (HttpRequest × LoadRequest) := []
  kept : Bool := true

/-- A call to the engine, or a pull on a session. -/
inductive Call
  | loadModel (req : LoadRequest) (o : Outside)
  | reloadModel (o : Outside)
  | unloadModel
  | startSession
  | pull (i : Nat)

namespace World

/-- The world after a load for `req`. -/
def afterLoad (w : World) (req : LoadRequest)
    (out : Except ExecError Unit × Engine × List HttpRequest) : World :=
  { w with
    engine := out.2.1
    sent := w.sent ++ out.2.2.map (·, req)
    kept := w.kept && (out.1.isOk || out.2.1.connection == w.engine.connection) }

/-- One call. -/
def next (w : World) : Call → World
  | .loadModel req o => w.afterLoad req (w.engine.loadModel o req)
  | .reloadModel o =>
    match w.engine.lastLoad with
    | some req => w.afterLoad req (w.engine.reloadModel o)
    | none => w
  | .unloadModel => { w with engine := w.engine.unloadModel }
  | .startSession =>
    match w.engine.startSession with
    | (.ok s, engine) =>
      { w with engine, sessions := w.sessions ++ w.engine.lastLoad.toList.map (s, ·) }
    | (.error _, engine) => { w with engine }
  | .pull i =>
    match w.sessions[i]? with
    | some (s, req) => { w with sent := w.sent ++ [(s.request, req)] }
    | none => w

/-- The world takes one call after the other. -/
def step (call : Call) (w : World) : Option World := some (w.next call)

/-- A loaded engine has the server of its last load. -/
def Loaded (w : World) : Prop :=
  w.engine.loaded → ∃ req path, w.engine.lastLoad = some req ∧ req.modelPath = some path ∧
    w.engine.serverUrl = trimEndSlashes path

/-- What is promised: everything that was sent, and everything that a session sends, carries what
the load request of its server asks for; a loaded engine gives a session the same; and no load that
failed has changed the connection. -/
structure Kept (w : World) : Prop where
  sent : ∀ s ∈ w.sent, Carries s.1 s.2
  sessions : ∀ s ∈ w.sessions, Carries s.1.request s.2
  engine : w.engine.loaded → ∀ req, w.engine.lastLoad = some req → w.engine.Holds req
  kept : w.kept

/-- The condition on a call: a load may be made. -/
def Takes (w : World) : Call → Prop
  | .loadModel req o => req.modelPath ≠ none → w.engine.Takes o req
  | .reloadModel o => ∀ req, w.engine.lastLoad = some req → req.modelPath ≠ none →
    w.engine.Takes o req
  | _ => True

open Engine

theorem loaded_afterLoad {w : World} (h : w.Loaded) (req : LoadRequest) (o : Outside) :
    (w.afterLoad req (w.engine.loadModel o req)).Loaded := by
  intro hloaded
  cases hpath : req.modelPath with
  | none =>
    simp only [afterLoad, loadModel, hpath] at hloaded ⊢
    exact h hloaded
  | some path =>
    rcases w.engine.loadModel_cases o hpath with ⟨-, heq⟩ | ⟨-, -, heq⟩ | ⟨-, -, err, heq⟩
    · rw [heq]
      exact ⟨req, path, rfl, hpath, rfl⟩
    · rw [heq]
      exact ⟨req, path, rfl, hpath, rfl⟩
    · rw [heq] at hloaded ⊢
      exact h hloaded

/-- A load keeps what is promised exactly where it may be made. -/
theorem kept_afterLoad_iff {w : World} (h : w.Kept) (req : LoadRequest) (o : Outside) :
    (w.afterLoad req (w.engine.loadModel o req)).Kept ↔
      (req.modelPath ≠ none → w.engine.Takes o req) := by
  cases hpath : req.modelPath with
  | none =>
    have hsame : w.afterLoad req (w.engine.loadModel o req) = w := by
      simp only [afterLoad, loadModel, hpath]
      simp
    rw [hsame]
    exact iff_of_true h fun hne => absurd rfl hne
  | some path =>
    have hmust : (some path ≠ none → w.engine.Takes o req) ↔ w.engine.Takes o req :=
      ⟨fun himp => himp (by simp), fun htakes _ => htakes⟩
    rw [hmust]
    rcases w.engine.loadModel_cases o hpath with ⟨hformat, heq⟩ | ⟨hformat, hreached, heq⟩ |
      ⟨hformat, hfailed, err, heq⟩
    · rw [heq, takes_iff_of_reached (.inl hformat)]
      constructor
      · intro hkept
        exact hkept.engine rfl req rfl
      intro hholds
      refine ⟨by simpa [afterLoad] using h.sent, h.sessions, fun _ req' hreq' => ?_, ?_⟩
      · obtain rfl := Option.some.inj hreq'
        exact hholds
      · simpa [afterLoad, Except.isOk, Except.toBool] using h.kept
    · rw [heq, takes_iff_of_reached (.inr hreached)]
      constructor
      · intro hkept
        exact hkept.engine rfl req rfl
      intro hholds
      have hcarries := ((w.engine.written req).checkRequest_carries_iff hpath hformat).mpr hholds
      refine ⟨fun s hs => ?_, h.sessions, fun _ req' hreq' => ?_, ?_⟩
      · rcases mem_append.mp hs with hs | hs
        · exact h.sent s hs
        · obtain rfl := mem_singleton.mp hs
          exact hcarries
      · obtain rfl := Option.some.inj hreq'
        exact hholds
      · simpa [afterLoad, Except.isOk, Except.toBool] using h.kept
    · rw [heq, takes_iff_of_failed hformat hfailed]
      have hcarries := (w.engine.written req).checkRequest_carries_iff hpath hformat
      constructor
      · intro hkept
        refine ⟨hcarries.mp (hkept.sent (_, req) (mem_append_right _ mem_cons_self)), ?_⟩
        have hboth := hkept.kept
        simp only [afterLoad, Bool.and_eq_true] at hboth
        simpa [Except.isOk, Except.toBool] using hboth.2
      · rintro ⟨hholds, hsame⟩
        refine ⟨fun s hs => ?_, h.sessions, fun hloaded req' hreq' => ?_, ?_⟩
        · rcases mem_append.mp hs with hs | hs
          · exact h.sent s hs
          · obtain rfl := mem_singleton.mp hs
            exact hcarries.mpr hholds
        · have hold := h.engine hloaded req' hreq'
          simp only [connection, Prod.mk.injEq] at hsame
          exact ⟨hsame.2.2.1.trans hold.1, hsame.2.2.2.trans hold.2⟩
        · simp [afterLoad, h.kept, hsame]

/-- A call keeps what is promised exactly where it may be made. -/
theorem kept_next_iff {w : World} (hloaded : w.Loaded) (h : w.Kept) (call : Call) :
    (w.next call).Kept ↔ w.Takes call := by
  cases call with
  | loadModel req o => exact kept_afterLoad_iff h req o
  | reloadModel o =>
    cases hlast : w.engine.lastLoad with
    | none => simpa [next, Takes, hlast] using h
    | some req =>
      have hreload : w.engine.reloadModel o = w.engine.loadModel o req := by
        rw [reloadModel, hlast]
      simp only [next, Takes, hlast, hreload, kept_afterLoad_iff h req o, Option.some.injEq,
        forall_eq']
  | unloadModel => exact iff_of_true ⟨h.sent, h.sessions, nofun, h.kept⟩ trivial
  | startSession =>
    refine iff_of_true ?_ trivial
    rw [next]
    by_cases hl : w.engine.loaded = false
    · rw [startSession, if_pos hl]
      exact ⟨h.sent, h.sessions, h.engine, h.kept⟩
    rw [startSession, if_neg hl]
    have hl := Bool.eq_true_of_not_eq_false hl
    obtain ⟨req, path, hlast, hpath, hurl⟩ := hloaded hl
    obtain ⟨hkey, hformat⟩ := h.engine hl req hlast
    refine ⟨h.sent, fun s hs => ?_, h.engine, h.kept⟩
    rcases mem_append.mp hs with hs | hs
    · exact h.sessions s hs
    · rw [hlast] at hs
      obtain rfl := mem_singleton.mp hs
      exact Session.request_carries hpath hurl hkey hformat
  | pull i =>
    refine iff_of_true ?_ trivial
    rw [next]
    cases hs : w.sessions[i]? with
    | none => exact h
    | some s =>
      refine ⟨fun s' hs' => ?_, h.sessions, h.engine, h.kept⟩
      rcases mem_append.mp hs' with hs' | hs'
      · exact h.sent s' hs'
      · obtain rfl := mem_singleton.mp hs'
        exact h.sessions s (mem_of_getElem? hs)

theorem loaded_next {w : World} (h : w.Loaded) (call : Call) : (w.next call).Loaded := by
  cases call with
  | loadModel req o => exact loaded_afterLoad h req o
  | reloadModel o =>
    rw [next]
    cases hlast : w.engine.lastLoad with
    | none => exact h
    | some req =>
      have hreload : w.engine.reloadModel o = w.engine.loadModel o req := by
        rw [reloadModel, hlast]
      simp only [hreload]
      exact loaded_afterLoad h req o
  | unloadModel => exact nofun
  | startSession =>
    rw [next]
    by_cases hl : w.engine.loaded = false
    · rw [startSession, if_pos hl]
      exact h
    · rw [startSession, if_neg hl]
      exact h
  | pull i =>
    rw [next]
    cases w.sessions[i]? <;> exact h

/-- **Credentials go where they were given for.**  Along a run every request carries the key and the
format of the load request that named its server, and no load that fails changes the connection, if
and only if every load brings its key, or finds none, brings its format, or finds the default, and
finds both set where it fails. -/
theorem credentials_iff (calls : List Call) :
    Always step Kept calls {} ↔ EveryStep step Takes calls {} := by
  have hkept : Kept {} := ⟨nofun, nofun, nofun, rfl⟩
  have hloaded : Loaded {} := nofun
  refine always_iff_everyStep (A := fun _ _ => True) (I := Loaded)
    (fun w call h _ => ⟨_, rfl, loaded_next h call⟩) ?_ hloaded hkept (everyStep_true calls _)
  rintro w call w' hl hk - hstep
  obtain rfl := Option.some.inj hstep
  exact kept_next_iff hl hk call

/-- A server with a key, and then one without: the key of the first goes to the second. -/
theorem key_sent_elsewhere :
    let first : LoadRequest := ⟨some "https://api.openai.com/v1", some "secret", none, none⟩
    let second : LoadRequest := ⟨some "http://localhost:11434/v1", none, none, none⟩
    ((runAll step [.loadModel first ⟨.success, none⟩, .loadModel second ⟨.success, none⟩] {}).map
      fun w => w.sent.map fun s => (s.1.url, s.1.credentials)) =
      some [("https://api.openai.com/v1/models", [("Authorization", "Bearer secret")]),
        ("http://localhost:11434/v1/models", [("Authorization", "Bearer secret")])] ∧
    ¬ Always step Kept [.loadModel first ⟨.success, none⟩, .loadModel second ⟨.success, none⟩]
      {} := by
  refine ⟨by decide +kernel, ?_⟩
  rintro ⟨-, w₁, hw₁, -, w₂, hw₂, hkept⟩
  obtain rfl := Option.some.inj hw₁
  obtain rfl := Option.some.inj hw₂
  have hcarries := hkept.sent _ (List.getLast_mem (List.cons_ne_nil _ _))
  exact absurd hcarries.credentials (by decide +kernel)

end World

end Gen2.ExternalApi
