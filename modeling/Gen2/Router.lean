import Mathlib.Data.List.MinMax
import Mathlib.Data.List.Nodup
import Mathlib.Data.Prod.Lex
import Mathlib.Data.String.Basic
import Mathlib.Order.Lex

/-!
# Which device runs a request

The inference router of `router.rs`: local first, then the paired peer that can host the model and
ranks highest, then the local device after a download, and at last nobody.

* `CanHost` is what it takes of a peer, and `LocalFits` of this device.
* `PeerAdvertisement.rank` puts the comparison of two peers into one linear order, which no two
  peers of different ids share a place in; so `best_remote_peer` is the `argmax` of the peers that
  can host, `bestRemotePeer_eq_argmax`.
* `bestRemotePeer_perm`: the pick does not depend on the order of the peers.
* `route_picks`: what `route` decides.
-/

namespace Gen2.Router

open List

/-! ## The zoo -/

/-- `PlatformBundle`, by what placement reads of it. -/
structure PlatformBundle where
  backend : String
  minRamMb : Nat
  deriving DecidableEq

/-- `ModelZooEntry`, by its platforms. -/
structure ModelZooEntry where
  platforms : String → Option PlatformBundle

/-- `ModelZoo`, by its models. -/
structure ModelZoo where
  models : String → Option ModelZooEntry

/-- `ModelZoo::get`. -/
def ModelZoo.get (zoo : ModelZoo) (modelId : String) : Option ModelZooEntry := zoo.models modelId

/-! ## Requests, devices and decisions -/

/-- `PeerAdvertisement`. -/
structure PeerAdvertisement where
  did : String
  pubkey : String
  name : String
  platform : String
  cores : Nat
  ramMb : Nat
  vramMb : Nat
  gpu : String
  models : List String
  idxFp : String
  ver : String
  deriving DecidableEq

/-- `RoutePriority`. -/
inductive RoutePriority
  | normal
  | urgent
  deriving DecidableEq

/-- `RouteRequest`. -/
structure RouteRequest where
  modelId : String
  priority : RoutePriority
  maxTokens : Option Nat

/-- `LocalCapability`. -/
structure LocalCapability where
  ramMb : Nat
  vramMb : Nat
  cachedModels : List String

/-- `RouteDecision`. -/
inductive RouteDecision
  | local (bundleBackend reason : String)
  | remote (peer : PeerAdvertisement) (reason : String)
  | fallback (reason : String)
  deriving DecidableEq

/-! ## The pick -/

/-- `local_bundle_for`, on the platform that `current_platform_id` names. -/
def localBundleFor (platform modelId : String) (zoo : ModelZoo) : Option PlatformBundle := do
  let entry ← zoo.get modelId
  entry.platforms platform

/-- `peer_can_host`. -/
def peerCanHost (peer : PeerAdvertisement) (modelId : String) (zoo : ModelZoo) : Bool :=
  if !peer.models.any (· == modelId) then false
  else
    match zoo.get modelId with
    | none => false
    | some entry =>
      match entry.platforms peer.platform with
      | none => false
      | some bundle => decide (bundle.minRamMb ≤ peer.ramMb)

/-- `peer_ranks_higher`.  The ids are compared as the bytes of their UTF-8, which is the order of
their characters. -/
def peerRanksHigher (a b : PeerAdvertisement) : Bool :=
  if a.vramMb ≠ b.vramMb then decide (a.vramMb > b.vramMb)
  else if a.ramMb ≠ b.ramMb then decide (a.ramMb > b.ramMb)
  else decide (a.did < b.did)

/-- `best_remote_peer`. -/
def bestRemotePeer (request : RouteRequest) (peers : List PeerAdvertisement) (zoo : ModelZoo) :
    Option PeerAdvertisement :=
  peers.foldl
    (fun best peer =>
      if !peerCanHost peer request.modelId zoo then best
      else
        match best with
        | none => some peer
        | some cur => some (if peerRanksHigher peer cur then peer else cur))
    none

/-- `route`. -/
def route (platform : String) (request : RouteRequest) (device : LocalCapability)
    (peers : List PeerAdvertisement) (zoo : ModelZoo) : RouteDecision :=
  let localBundle := localBundleFor platform request.modelId zoo
  let localFits := (localBundle.map fun b => decide (b.minRamMb ≤ device.ramMb)).getD false
  let localCached := device.cachedModels.any (· == request.modelId)
  let backend := (localBundle.map PlatformBundle.backend).getD ""
  if localFits && localCached then
    .local backend "local device has model cached and enough RAM"
  else if request.priority == .urgent && localFits then
    .local backend "urgent — forcing local even without cached model"
  else
    match bestRemotePeer request peers zoo with
    | some peer => .remote peer "remote peer has model + capacity"
    | none =>
      if localFits then
        .local backend "no remote available — will download model locally then run"
      else
        .fallback "no device can host this model — falling back to smaller model"

/-! ## What is asked of a device -/

/-- A peer can host a model: it has the model cached, the model has a build for its platform, and it
has the memory that the build asks for. -/
def CanHost (zoo : ModelZoo) (modelId : String) (peer : PeerAdvertisement) : Prop :=
  modelId ∈ peer.models ∧ ∃ entry bundle, zoo.get modelId = some entry ∧
    entry.platforms peer.platform = some bundle ∧ bundle.minRamMb ≤ peer.ramMb

/-- The local device fits a model: it has a build for the platform, and the memory is there. -/
def LocalFits (platform : String) (zoo : ModelZoo) (modelId : String) (device : LocalCapability) :
    Prop :=
  ∃ entry bundle, zoo.get modelId = some entry ∧ entry.platforms platform = some bundle ∧
    bundle.minRamMb ≤ device.ramMb

variable {platform modelId : String} {request : RouteRequest} {device : LocalCapability}
  {peers peers' : List PeerAdvertisement} {zoo : ModelZoo} {peer other : PeerAdvertisement}

theorem peerCanHost_iff : peerCanHost peer modelId zoo = true ↔ CanHost zoo modelId peer := by
  rw [peerCanHost, CanHost]
  by_cases hcached : modelId ∈ peer.models
  · have hany : peer.models.any (· == modelId) = true :=
      any_eq_true.2 ⟨modelId, hcached, beq_self_eq_true _⟩
    rw [hany]
    rcases hentry : zoo.get modelId with _ | entry
    · simp
    · rcases hbundle : entry.platforms peer.platform with _ | bundle
      · simp [hbundle]
      · simp [hbundle, hcached]
  · have hany : peer.models.any (· == modelId) = false := by
      rw [any_eq_false]
      rintro id hid heq
      exact hcached (eq_of_beq heq ▸ hid)
    simp [hany, hcached]

theorem localFits_iff :
    ((localBundleFor platform modelId zoo).map fun b => decide (b.minRamMb ≤ device.ramMb)).getD
      false = true ↔ LocalFits platform zoo modelId device := by
  rw [localBundleFor, LocalFits]
  rcases hentry : zoo.get modelId with _ | entry
  · simp
  · rcases hbundle : entry.platforms platform with _ | bundle <;> simp [hbundle]

/-! ## The order of the peers -/

/-- More video memory first, then more memory, then the smaller id. -/
def PeerAdvertisement.rank (peer : PeerAdvertisement) : ℕ ×ₗ ℕ ×ₗ Stringᵒᵈ :=
  toLex (peer.vramMb, toLex (peer.ramMb, OrderDual.toDual peer.did))

theorem peerRanksHigher_iff : peerRanksHigher peer other = true ↔ other.rank < peer.rank := by
  unfold peerRanksHigher PeerAdvertisement.rank
  rw [Prod.Lex.toLex_lt_toLex, Prod.Lex.toLex_lt_toLex]
  by_cases hvram : peer.vramMb = other.vramMb
  · by_cases hram : peer.ramMb = other.ramMb
    · simp [hvram, hram]
    · simp [hvram, hram, Ne.symm hram]
  · simp [hvram, Ne.symm hvram]

theorem did_eq_of_rank_eq (h : peer.rank = other.rank) : peer.did = other.did := by
  rw [PeerAdvertisement.rank] at h
  have hpair := (Prod.mk.inj (toLex.injective h)).2
  exact OrderDual.toDual.injective (Prod.mk.inj (toLex.injective hpair)).2

/-- The fold over the peers is the `argmax` of those that can host. -/
theorem bestRemotePeer_eq_argmax :
    bestRemotePeer request peers zoo =
      (peers.filter (peerCanHost · request.modelId zoo)).argmax PeerAdvertisement.rank := by
  rw [bestRemotePeer, argmax]
  rw [foldl_filter]
  congr 1
  funext best peer
  cases hhost : peerCanHost peer request.modelId zoo with
  | false => rfl
  | true =>
    cases best with
    | none => rfl
    | some cur =>
      simp only [Bool.not_true, Bool.false_eq_true, if_false, if_true, argAux]
      by_cases hrank : cur.rank < peer.rank
      · rw [if_pos (peerRanksHigher_iff.2 hrank), if_pos hrank]
      · rw [if_neg (mt peerRanksHigher_iff.1 hrank), if_neg hrank]

/-- What is picked can host the model, and nothing that can ranks higher. -/
theorem bestRemotePeer_some (h : bestRemotePeer request peers zoo = some peer) :
    peer ∈ peers ∧ CanHost zoo request.modelId peer ∧
      ∀ other ∈ peers, CanHost zoo request.modelId other → other.rank ≤ peer.rank := by
  rw [bestRemotePeer_eq_argmax] at h
  obtain ⟨hmem, hmax, -⟩ := argmax_eq_some_iff.1 h
  obtain ⟨hpeer, hhost⟩ := mem_filter.1 hmem
  exact ⟨hpeer, peerCanHost_iff.1 hhost, fun other hother hcan =>
    hmax other (mem_filter.2 ⟨hother, peerCanHost_iff.2 hcan⟩)⟩

theorem bestRemotePeer_eq_none :
    bestRemotePeer request peers zoo = none ↔
      ∀ peer ∈ peers, ¬ CanHost zoo request.modelId peer := by
  rw [bestRemotePeer_eq_argmax, argmax_eq_none, filter_eq_nil_iff]
  simp only [peerCanHost_iff]

/-- The pick does not depend on the order of the peers. -/
theorem bestRemotePeer_perm (hids : (peers.map PeerAdvertisement.did).Nodup)
    (hperm : peers'.Perm peers) :
    bestRemotePeer request peers' zoo = bestRemotePeer request peers zoo := by
  rcases hbest : bestRemotePeer request peers zoo with _ | peer
  · rw [bestRemotePeer_eq_none] at hbest ⊢
    exact fun peer hpeer => hbest peer (hperm.mem_iff.1 hpeer)
  obtain ⟨hpeer, hhost, hmax⟩ := bestRemotePeer_some hbest
  rcases hbest' : bestRemotePeer request peers' zoo with _ | peer'
  · exact absurd hhost (bestRemotePeer_eq_none.1 hbest' peer (hperm.mem_iff.2 hpeer))
  obtain ⟨hpeer', hhost', hmax'⟩ := bestRemotePeer_some hbest'
  -- each of the two is at least as high as the other, and ids tell the peers apart
  have hrank : peer'.rank = peer.rank :=
    le_antisymm (hmax peer' (hperm.mem_iff.1 hpeer') hhost')
      (hmax' peer (hperm.mem_iff.2 hpeer) hhost)
  exact congrArg some (inj_on_of_nodup_map hids (hperm.mem_iff.1 hpeer') hpeer
    (did_eq_of_rank_eq hrank))

/-! ## The decision -/

theorem route_local (hfits : LocalFits platform zoo request.modelId device)
    (hcached : request.modelId ∈ device.cachedModels) :
    ∃ backend reason, route platform request device peers zoo = .local backend reason := by
  have hany : device.cachedModels.any (· == request.modelId) = true :=
    any_eq_true.2 ⟨_, hcached, beq_self_eq_true _⟩
  rw [route]
  simp only [localFits_iff.2 hfits, hany, Bool.and_self, if_true]
  exact ⟨_, _, rfl⟩

/-- A remote pick is the best of the peers. -/
theorem bestRemotePeer_of_route {reason : String}
    (h : route platform request device peers zoo = .remote peer reason) :
    bestRemotePeer request peers zoo = some peer := by
  rcases hbest : bestRemotePeer request peers zoo with _ | best <;> simp only [route, hbest] at h
  · split_ifs at h
  · split_ifs at h
    rw [(RouteDecision.remote.inj h).1]

/-- A fallback is for want of any device. -/
theorem nobody_of_route {reason : String}
    (h : route platform request device peers zoo = .fallback reason) :
    ¬ LocalFits platform zoo request.modelId device ∧ bestRemotePeer request peers zoo = none := by
  rcases hbest : bestRemotePeer request peers zoo with _ | best <;> simp only [route, hbest] at h
  · split_ifs at h with _ _ hfits
    exact ⟨fun hlocal => hfits (localFits_iff.2 hlocal), rfl⟩
  · split_ifs at h

/-- **Routing.**  The order of the peers decides nothing; a remote pick can host the model, and
nothing that can ranks higher; a device that fits the model and has it runs it; and a request falls
back only where no device can host its model. -/
theorem route_picks (platform : String) (request : RouteRequest) (device : LocalCapability)
    (peers : List PeerAdvertisement) (zoo : ModelZoo)
    (hids : (peers.map PeerAdvertisement.did).Nodup) :
    (∀ peers', peers'.Perm peers →
        route platform request device peers' zoo = route platform request device peers zoo) ∧
      (∀ peer reason, route platform request device peers zoo = .remote peer reason →
        peer ∈ peers ∧ CanHost zoo request.modelId peer ∧
          ∀ other ∈ peers, CanHost zoo request.modelId other →
            peerRanksHigher other peer = false) ∧
      (LocalFits platform zoo request.modelId device → request.modelId ∈ device.cachedModels →
        ∃ backend reason, route platform request device peers zoo = .local backend reason) ∧
      (∀ reason, route platform request device peers zoo = .fallback reason →
        ¬ LocalFits platform zoo request.modelId device ∧
          ∀ peer ∈ peers, ¬ CanHost zoo request.modelId peer) := by
  refine ⟨fun peers' hperm => ?_, fun peer reason hroute => ?_, route_local,
    fun reason hroute => ?_⟩
  · unfold route
    rw [bestRemotePeer_perm hids hperm]
  · obtain ⟨hpeer, hhost, hmax⟩ := bestRemotePeer_some (bestRemotePeer_of_route hroute)
    refine ⟨hpeer, hhost, fun other hother hcan => ?_⟩
    rw [Bool.eq_false_iff]
    exact fun hhigher => absurd (peerRanksHigher_iff.1 hhigher) (not_lt.2 (hmax other hother hcan))
  · obtain ⟨hlocal, hbest⟩ := nobody_of_route hroute
    exact ⟨hlocal, bestRemotePeer_eq_none.1 hbest⟩

/-- A model with a build for one platform. -/
def smallZoo : ModelZoo where
  models id :=
    if id = "gemma-4" then
      some ⟨fun platform => if platform = "linux_cpu" then some ⟨"llamacpp", 4096⟩ else none⟩
    else none

/-- A peer that has the model, by its id and its two memories. -/
def server (did : String) (ramMb vramMb : Nat) : PeerAdvertisement where
  did := did
  pubkey := "key"
  name := did
  platform := "linux_cpu"
  cores := 8
  ramMb := ramMb
  vramMb := vramMb
  gpu := "cuda"
  models := ["gemma-4"]
  idxFp := "deadbeef"
  ver := "1"

/-- The one with more video memory, whichever comes first. -/
theorem bigger_server_picked :
    (∀ peers', peers'.Perm [server "a" 32768 8192, server "b" 65536 24576] →
        route "ios" ⟨"gemma-4", .normal, none⟩ ⟨1024, 0, []⟩ peers' smallZoo =
          route "ios" ⟨"gemma-4", .normal, none⟩ ⟨1024, 0, []⟩
            [server "a" 32768 8192, server "b" 65536 24576] smallZoo) ∧
      route "ios" ⟨"gemma-4", .normal, none⟩ ⟨1024, 0, []⟩
          [server "a" 32768 8192, server "b" 65536 24576] smallZoo =
        .remote (server "b" 65536 24576) "remote peer has model + capacity" :=
  ⟨(route_picks _ _ _ _ _ (by decide)).1, by decide⟩

end Gen2.Router
