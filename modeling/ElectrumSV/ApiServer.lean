import Mathlib.Data.List.AList
import ElectrumSV.Basic

/-!
# API servers and their credentials

A `NewServer` maps each wallet account that uses it to the credential id it uses
(`client_api_keys`) and keeps access state per credential id (`api_key_state`, keyed by
`Optional[IndefiniteCredentialId]`, so `None` is a key of its own). A server from the application
config also holds the id of the config's API key (`config_credential_id`). `get_credential_id`
answers from the account, then from the wallet, then from the config when it is enabled for all
wallets, and `should_request_fee_quote` and `prioritise_broadcast_servers` index `api_key_state`
with the answer.

Every id that `client_api_keys` holds, and every id that `config_credential_id` holds, is a key
of `api_key_state` in every reachable state (`Reachable.keys_registered`). The one answer that
escapes is the config fallback after `on_pending_config_change` has dropped the API key: it
answers `None`, which nothing added (`getCredentialId_mem`, `dropped_api_key_lookup_fails`).

A wallet that is loaded primes the server with the access state it stored (`set_wallet_usage`).
The stored `last_try` is taken only when the stored state was good more recently than the server
knew, and `last_good` moves only through the fee quote of a merchant API server
(`keyState_setWalletUsage`). Over any calls for one credential, `last_good` ends as the largest
restored value on a merchant API server and unchanged on any other server, and `last_try` ends
independent of the order except on a merchant API server (`merged_key_state`,
`merchant_last_try_order_matters`). So a server of another type forgets the `date_last_good` a
wallet primed it with, and `unregister_wallet` reports `0` for a credential it had no state for
(`unregister_reports_lost_last_good`).
-/

namespace ElectrumSV

/-- `IndefiniteCredentialId`. -/
abbrev CredentialId := Nat

/-- `app_state.credentials`: the ids handed out so far, and those still held. -/
structure CredentialCache where
  nextId : Nat := 0
  held : List CredentialId := []
  deriving DecidableEq, Repr

namespace CredentialCache

/-- `add_indefinite_credential`: a fresh id. -/
def addIndefiniteCredential (cache : CredentialCache) : CredentialId × CredentialCache :=
  (cache.nextId, { nextId := cache.nextId + 1, held := cache.nextId :: cache.held })

/-- `remove_indefinite_credential`. -/
def removeIndefiniteCredential (cache : CredentialCache) (id : CredentialId) : CredentialCache :=
  { cache with held := cache.held.erase id }

end CredentialCache

/-- `NetworkServerType`. -/
inductive NetworkServerType
  | GENERAL
  | MERCHANT_API
  | ELECTRUMX
  deriving DecidableEq, Repr

/-- The entries of a server's config dictionary that `NewServer` reads; `none` is a missing key. -/
structure ServerConfig where
  apiKey : Option String := none
  enabledForAllWallets : Option Bool := none
  apiKeyRequired : Option Bool := none
  deriving DecidableEq, Repr

/-- `config.get("api_key")` is truthy. -/
def ServerConfig.hasApiKey (cfg : ServerConfig) : Bool := cfg.apiKey.any (· != "")

/-- `NewServerAPIContext`. -/
structure NewServerAPIContext where
  walletPath : String
  accountId : Int
  deriving DecidableEq, Repr

/-- `JSONEnvelope`, with the field that the fee quote is read from. -/
structure JSONEnvelope where
  payload : String
  deriving DecidableEq, Repr

/-- `FeeQuote`, with its `timestamp` parsed to seconds. -/
structure FeeQuote where
  timestamp : Int
  deriving DecidableEq, Repr

/-- JSON parsing and printing, which the model takes as given. -/
structure ApiEnv where
  /-- `json.loads` of a stored fee quote envelope. -/
  loadsEnvelope : String → JSONEnvelope
  /-- `json.loads` of an envelope's payload. -/
  loadsFeeQuote : String → FeeQuote
  /-- `json.dumps` of an envelope. -/
  dumpsEnvelope : JSONEnvelope → String

/-- `NewServerAccessState`, with timestamps in whole seconds. -/
structure NewServerAccessState where
  lastTry : Int := 0
  lastGood : Int := 0
  lastFeeQuoteResponse : Option JSONEnvelope := none
  lastFeeQuote : Option FeeQuote := none
  deriving DecidableEq, Repr

/-- `NewServerAccessState.set_fee_quote`: a quote older than the last success is ignored. -/
def NewServerAccessState.setFeeQuote (env : ApiEnv) (s : NewServerAccessState)
    (feeResponse : Option JSONEnvelope) (timestamp : Int) : NewServerAccessState :=
  if timestamp < s.lastGood then s
  else { s with lastGood := timestamp, lastFeeQuoteResponse := feeResponse,
                lastFeeQuote := feeResponse.map fun r => env.loadsFeeQuote r.payload }

/-- `NetworkServerState`, with the fields that `set_wallet_usage` reads and
`unregister_wallet` writes. -/
structure NetworkServerState where
  accountId : Int
  credentialId : Option CredentialId
  mapiFeeQuoteJson : Option String
  dateLastTry : Int
  dateLastGood : Int
  deriving DecidableEq, Repr

/-- `STALE_PERIOD_SECONDS`. -/
def STALE_PERIOD_SECONDS : Int := 60 * 60 * 24

/-- `NewServer`. -/
structure NewServer where
  url : String
  serverType : NetworkServerType
  config : Option ServerConfig
  configCredentialId : Option CredentialId
  clientApiKeys : AList fun _ : NewServerAPIContext => Option CredentialId
  apiKeyState : AList fun _ : Option CredentialId => NewServerAccessState

/-- A server and the credential cache it shares with the application. -/
structure ServerSystem where
  server : NewServer
  credentials : CredentialCache

namespace NewServer

/-- `api_key_state[id]`, added with a fresh state if missing. -/
def ensureKeyState (s : NewServer) (id : Option CredentialId) :
    AList fun _ : Option CredentialId => NewServerAccessState :=
  if id ∈ s.apiKeyState then s.apiKeyState else s.apiKeyState.insert id {}

/-- `NewServer.__init__`. -/
def init (url : String) (serverType : NetworkServerType) (config : Option ServerConfig)
    (cache : CredentialCache) : ServerSystem :=
  match config with
  | none => ⟨⟨url, serverType, none, none, ∅, ∅⟩, cache⟩
  | some cfg =>
    let (configCredentialId, cache) :=
      if cfg.hasApiKey then
        let (id, cache) := cache.addIndefiniteCredential
        (some id, cache)
      else (none, cache)
    ⟨⟨url, serverType, some cfg, configCredentialId, ∅, (∅ : AList _).insert configCredentialId {}⟩,
      cache⟩

/-- `set_wallet_usage`: register the account's credential and merge the wallet's newer state. -/
def setWalletUsage (env : ApiEnv) (s : NewServer) (walletPath : String)
    (serverState : NetworkServerState) : NewServer :=
  let usageContext : NewServerAPIContext := ⟨walletPath, serverState.accountId⟩
  let states := s.ensureKeyState serverState.credentialId
  let keyState := (states.lookup serverState.credentialId).getD {}
  let keyState :=
    if serverState.dateLastGood > keyState.lastGood then
      let keyState := { keyState with lastTry := max keyState.lastTry serverState.dateLastTry }
      if s.serverType = .MERCHANT_API then
        let feeResponse := (serverState.mapiFeeQuoteJson.filter (· != "")).map env.loadsEnvelope
        keyState.setFeeQuote env feeResponse serverState.dateLastGood
      else keyState
    else keyState
  { s with clientApiKeys := s.clientApiKeys.insert usageContext serverState.credentialId,
           apiKeyState := states.insert serverState.credentialId keyState }

/-- `remove_wallet_usage`; `none` is the `KeyError` of an account that is not registered. -/
def removeWalletUsage (s : NewServer) (walletPath : String) (accountId : Int) :
    Option NewServer :=
  let usageContext : NewServerAPIContext := ⟨walletPath, accountId⟩
  if usageContext ∈ s.clientApiKeys then
    some { s with clientApiKeys := s.clientApiKeys.erase usageContext }
  else none

/-- The state that `unregister_wallet` reports for one of the wallet's accounts. -/
def reportUsage (env : ApiEnv) (s : NewServer) (clientKey : NewServerAPIContext)
    (credentialId : Option CredentialId) : Option NetworkServerState := do
  let keyState ← s.apiKeyState.lookup credentialId
  let mapiFeeQuoteJson ←
    if s.serverType = .MERCHANT_API then pure (keyState.lastFeeQuoteResponse.map env.dumpsEnvelope)
    else if keyState.lastFeeQuoteResponse = none then pure none
    else none
  pure ⟨clientKey.accountId, credentialId, mapiFeeQuoteJson, keyState.lastTry, keyState.lastGood⟩

/-- `unregister_wallet`: drop every account of the wallet and report its state. -/
def unregisterWallet (env : ApiEnv) (s : NewServer) (walletPath : String) :
    Option (NewServer × List NetworkServerState) := do
  let mine := s.clientApiKeys.entries.filter (·.1.walletPath = walletPath)
  let results ← mine.mapM fun e => s.reportUsage env e.1 e.2
  pure ({ s with clientApiKeys := mine.foldl (fun m e => m.erase e.1) s.clientApiKeys }, results)

/-- `on_pending_config_change`: release the old config credential and take the new one. -/
def onPendingConfigChange (s : NewServer) (cache : CredentialCache) (configUpdate : ServerConfig) :
    Option ServerSystem := do
  guard s.config.isSome
  let (s, cache) := match s.configCredentialId with
    | some id => ({ s with configCredentialId := none }, cache.removeIndefiniteCredential id)
    | none => (s, cache)
  if configUpdate.hasApiKey then
    let (id, cache) := cache.addIndefiniteCredential
    pure ⟨{ s with configCredentialId := some id, apiKeyState := s.ensureKeyState (some id) },
      cache⟩
  else pure ⟨s, cache⟩

/-- `get_credential_id`: the account's credential, else the wallet's, else the config's when it
is enabled for all wallets. `none` is the `KeyError` of a config without
`enabled_for_all_wallets`. -/
def getCredentialId (s : NewServer) (clientKey : NewServerAPIContext) :
    Option (Bool × Option CredentialId) :=
  match s.clientApiKeys.lookup clientKey with
  | some id => some (true, id)
  | none =>
    match s.clientApiKeys.lookup ⟨clientKey.walletPath, -1⟩ with
    | some id => some (true, id)
    | none =>
      match s.config with
      | some cfg => do
        let enabled ← cfg.enabledForAllWallets
        pure (if enabled then (true, s.configCredentialId) else (false, none))
      | none => some (false, none)

/-- `should_request_fee_quote` at time `now`; `none` is the `KeyError` of a credential id that
is not a key of `api_key_state`. -/
def shouldRequestFeeQuote (s : NewServer) (credentialId : Option CredentialId) (now : Int) :
    Option Bool :=
  if (s.config.bind (·.apiKeyRequired)) = some true ∧ credentialId = none then some false
  else do
    let keyState ← s.apiKeyState.lookup credentialId
    match keyState.lastFeeQuote with
    | none => pure true
    | some quote => pure (now - quote.timestamp > STALE_PERIOD_SECONDS)

end NewServer

/-- The calls a server receives after construction. -/
inductive ServerAction
  | setWalletUsage (walletPath : String) (serverState : NetworkServerState)
  | removeWalletUsage (walletPath : String) (accountId : Int)
  | unregisterWallet (walletPath : String)
  | onPendingConfigChange (configUpdate : ServerConfig)

namespace ServerSystem

/-- One call; `none` when it raises. -/
def step (env : ApiEnv) (sys : ServerSystem) : ServerAction → Option ServerSystem
  | .setWalletUsage walletPath serverState =>
    some { sys with server := sys.server.setWalletUsage env walletPath serverState }
  | .removeWalletUsage walletPath accountId =>
    (fun s => { sys with server := s }) <$> sys.server.removeWalletUsage walletPath accountId
  | .unregisterWallet walletPath =>
    (fun r => { sys with server := r.1 }) <$> sys.server.unregisterWallet env walletPath
  | .onPendingConfigChange configUpdate =>
    sys.server.onPendingConfigChange sys.credentials configUpdate

/-- The states a server reaches from its construction. -/
inductive Reachable (env : ApiEnv) : ServerSystem → Prop
  | init (url : String) (serverType : NetworkServerType) (config : Option ServerConfig)
      (cache : CredentialCache) : Reachable env (NewServer.init url serverType config cache)
  | step {sys sys' : ServerSystem} (a : ServerAction) :
      Reachable env sys → sys.step env a = some sys' → Reachable env sys'

end ServerSystem

/-! ## Credential ids stay registered -/

namespace NewServer

variable {env : ApiEnv} {s : NewServer}

/-- Every credential id the server can hand out, except a missing config one, is a key of
`api_key_state`. -/
structure KeysRegistered (s : NewServer) : Prop where
  /-- Every account's credential id. -/
  client : ∀ ctx id, s.clientApiKeys.lookup ctx = some id → id ∈ s.apiKeyState
  /-- The config's credential id, while it has one. -/
  config : ∀ id, s.configCredentialId = some id → some id ∈ s.apiKeyState
  /-- `None`, on a server built from a config without an API key. -/
  noneKey : ∀ cfg, s.config = some cfg → cfg.hasApiKey = false → none ∈ s.apiKeyState

theorem mem_ensureKeyState {k : Option CredentialId} (id : Option CredentialId) :
    k ∈ s.ensureKeyState id ↔ k = id ∨ k ∈ s.apiKeyState := by
  unfold ensureKeyState
  split
  case isTrue hid => exact ⟨.inr, fun h => h.elim (fun e => e ▸ hid) fun h => h⟩
  case isFalse => exact AList.mem_insert _

theorem keysRegistered_init (url : String) (serverType : NetworkServerType)
    (config : Option ServerConfig) (cache : CredentialCache) :
    KeysRegistered (init url serverType config cache).server := by
  unfold init
  split
  · exact ⟨fun _ _ h => by simp at h, fun _ h => (by cases h), fun _ h _ => by cases h⟩
  · refine ⟨fun _ _ h => by simp at h, fun id h => ?_, fun cfg hc hk => ?_⟩
    · rw [← h]
      exact (AList.mem_insert _).2 (.inl rfl)
    · cases hc
      simp only [hk, Bool.false_eq_true, ite_false]
      exact (AList.mem_insert _).2 (.inl rfl)

theorem lookup_foldl_erase {α β γ : Type} [DecidableEq α] (f : γ → α) (l : List γ) :
    ∀ {m : AList fun _ : α => β} {k : α} {v : β},
      (l.foldl (fun m e => m.erase (f e)) m).lookup k = some v → m.lookup k = some v := by
  induction l with
  | nil => exact fun h => h
  | cons a l ih =>
    intro m k v h
    have h' := ih h
    by_cases hk : k = f a
    · subst hk
      simp [AList.lookup_erase] at h'
    · rwa [AList.lookup_erase_ne hk] at h'

theorem KeysRegistered.setWalletUsage (h : KeysRegistered s) (walletPath : String)
    (serverState : NetworkServerState) :
    KeysRegistered (s.setWalletUsage env walletPath serverState) := by
  have hmono : ∀ k, k ∈ s.apiKeyState →
      k ∈ (s.setWalletUsage env walletPath serverState).apiKeyState := fun k hk =>
    (AList.mem_insert _).2 (.inr ((mem_ensureKeyState _).2 (.inr hk)))
  refine ⟨fun ctx id hl => ?_, fun id hc => hmono _ (h.config id hc),
    fun cfg hc hk => hmono _ (h.noneKey cfg hc hk)⟩
  by_cases hctx : ctx = ⟨walletPath, serverState.accountId⟩
  · subst hctx
    simp only [NewServer.setWalletUsage, AList.lookup_insert, Option.some.injEq] at hl
    subst hl
    exact (AList.mem_insert _).2 (.inl rfl)
  · rw [NewServer.setWalletUsage, AList.lookup_insert_ne hctx] at hl
    exact hmono _ (h.client ctx id hl)

theorem KeysRegistered.removeWalletUsage (h : KeysRegistered s) {walletPath : String}
    {accountId : Int} {s' : NewServer} (hs : s.removeWalletUsage walletPath accountId = some s') :
    KeysRegistered s' := by
  simp only [NewServer.removeWalletUsage] at hs
  split at hs
  · cases hs
    exact ⟨fun ctx v hl => h.client ctx v
      (lookup_foldl_erase (fun x => x) [(⟨walletPath, accountId⟩ : NewServerAPIContext)] hl),
      h.config, h.noneKey⟩
  · cases hs

theorem KeysRegistered.unregisterWallet (h : KeysRegistered s) {walletPath : String}
    {r : NewServer × List NetworkServerState} (hs : s.unregisterWallet env walletPath = some r) :
    KeysRegistered r.1 := by
  simp only [NewServer.unregisterWallet, Option.bind_eq_bind, Option.bind_eq_some,
    Option.pure_def, Option.some.injEq] at hs
  obtain ⟨_, -, rfl⟩ := hs
  refine ⟨fun ctx v hl => h.client ctx v ?_, h.config, h.noneKey⟩
  exact lookup_foldl_erase Sigma.fst _ hl

theorem KeysRegistered.onPendingConfigChange (h : KeysRegistered s) {cache : CredentialCache}
    {configUpdate : ServerConfig} {sys : ServerSystem}
    (hs : s.onPendingConfigChange cache configUpdate = some sys) : KeysRegistered sys.server := by
  have hdrop : KeysRegistered { s with configCredentialId := none } :=
    ⟨h.client, fun _ hc => (by cases hc), h.noneKey⟩
  have htake : ∀ id, KeysRegistered
      { s with configCredentialId := some id, apiKeyState := s.ensureKeyState (some id) } :=
    fun id => ⟨fun ctx id hl => (mem_ensureKeyState _).2 (.inr (h.client ctx id hl)),
      fun _ hc => (mem_ensureKeyState _).2 (.inl (by cases hc; rfl)),
      fun cfg hc hk => (mem_ensureKeyState _).2 (.inr (h.noneKey cfg hc hk))⟩
  simp only [NewServer.onPendingConfigChange, Option.bind_eq_bind, guard, Option.pure_def] at hs
  split at hs
  · cases hc : s.configCredentialId <;>
      simp only [hc, Option.some_bind] at hs <;> split at hs <;> cases hs
    case none.isTrue.refl | some.isTrue.refl => exact htake _
    case none.isFalse.refl => exact h
    case some.isFalse.refl => exact hdrop
  · cases hs

end NewServer

namespace ServerSystem

theorem step_keysRegistered {env : ApiEnv} {sys sys' : ServerSystem} {a : ServerAction}
    (h : sys.server.KeysRegistered) (hs : sys.step env a = some sys') :
    sys'.server.KeysRegistered := by
  cases a with
  | setWalletUsage walletPath serverState =>
    cases hs
    exact h.setWalletUsage walletPath serverState
  | removeWalletUsage walletPath accountId =>
    obtain ⟨s', hs', rfl⟩ := Option.map_eq_some'.1 hs
    exact h.removeWalletUsage hs'
  | unregisterWallet walletPath =>
    obtain ⟨r, hr, rfl⟩ := Option.map_eq_some'.1 hs
    exact h.unregisterWallet hr
  | onPendingConfigChange configUpdate => exact h.onPendingConfigChange hs

theorem Reachable.keys_registered {env : ApiEnv} {sys : ServerSystem} (hr : Reachable env sys) :
    sys.server.KeysRegistered := by
  induction hr with
  | init url serverType config cache =>
    exact NewServer.keysRegistered_init url serverType config cache
  | step a _ hs ih => exact step_keysRegistered ih hs

end ServerSystem

/-- JSON stand-ins for examples. -/
def sampleApiEnv : ApiEnv := ⟨fun text => ⟨text⟩, fun _ => ⟨0⟩, fun e => e.payload⟩

/-- A config entry with an API key, enabled for all wallets. -/
def keyedConfig : ServerConfig := { apiKey := some "encrypted", enabledForAllWallets := some true }

/-- A merchant API server built from `keyedConfig`. -/
def keyedServer : ServerSystem := NewServer.init "mapi" .MERCHANT_API (some keyedConfig) {}

/-- `keyedServer` after a config change that removes the API key. -/
def droppedKeyServer : ServerSystem :=
  ⟨{ keyedServer.server with configCredentialId := none },
    keyedServer.credentials.removeIndefiniteCredential 0⟩

theorem dropped_api_key_lookup_fails :
    ServerSystem.Reachable sampleApiEnv droppedKeyServer ∧
    droppedKeyServer.server.getCredentialId ⟨"wallet", 1⟩ = some (true, none) ∧
    none ∉ droppedKeyServer.server.apiKeyState ∧
    droppedKeyServer.server.shouldRequestFeeQuote none 0 = none :=
  ⟨.step (.onPendingConfigChange {}) (.init "mapi" .MERCHANT_API (some keyedConfig) {}) rfl,
    by decide, by decide, by decide⟩

/-! ## Merging the states that wallets restore -/

namespace NewServerAccessState

@[simp] theorem setFeeQuote_lastGood (env : ApiEnv) (k : NewServerAccessState)
    (feeResponse : Option JSONEnvelope) (timestamp : Int) :
    (k.setFeeQuote env feeResponse timestamp).lastGood = max k.lastGood timestamp := by
  unfold setFeeQuote
  split
  · omega
  · show timestamp = _
    omega

@[simp] theorem setFeeQuote_lastTry (env : ApiEnv) (k : NewServerAccessState)
    (feeResponse : Option JSONEnvelope) (timestamp : Int) :
    (k.setFeeQuote env feeResponse timestamp).lastTry = k.lastTry := by
  unfold setFeeQuote
  split <;> rfl

end NewServerAccessState

namespace NewServer

/-- The access state of credential `id`: its entry of `api_key_state`, or the fresh state that
`set_wallet_usage` adds for it. -/
def keyState (s : NewServer) (id : Option CredentialId) : NewServerAccessState :=
  (s.apiKeyState.lookup id).getD {}

/-- `set_wallet_usage(wallet_path, server_state)` for each call in turn. -/
def setWalletUsages (env : ApiEnv) (s : NewServer) (calls : List (String × NetworkServerState)) :
    NewServer :=
  calls.foldl (fun s call => s.setWalletUsage env call.1 call.2) s

theorem lookup_ensureKeyState_self (s : NewServer) (id : Option CredentialId) :
    (s.ensureKeyState id).lookup id = some (s.keyState id) := by
  unfold ensureKeyState keyState
  split
  case isTrue h =>
    obtain ⟨k, hk⟩ := Option.isSome_iff_exists.1 (AList.lookup_isSome.2 h)
    rw [hk]
    rfl
  case isFalse h => rw [AList.lookup_insert, AList.lookup_eq_none.2 h]; rfl

/-- One call: `last_good` moves only through the fee quote of a merchant API server, and
`last_try` only when the restored state was good more recently than the server knew. -/
theorem keyState_setWalletUsage (env : ApiEnv) (s : NewServer) (walletPath : String)
    (st : NetworkServerState) :
    ((s.setWalletUsage env walletPath st).keyState st.credentialId).lastGood =
        (if s.serverType = .MERCHANT_API then
          max (s.keyState st.credentialId).lastGood st.dateLastGood
        else (s.keyState st.credentialId).lastGood) ∧
      ((s.setWalletUsage env walletPath st).keyState st.credentialId).lastTry =
        if (s.keyState st.credentialId).lastGood < st.dateLastGood then
          max (s.keyState st.credentialId).lastTry st.dateLastTry
        else (s.keyState st.credentialId).lastTry := by
  have hk := lookup_ensureKeyState_self s st.credentialId
  generalize s.keyState st.credentialId = k at hk ⊢
  simp only [setWalletUsage, keyState, AList.lookup_insert, Option.getD_some, hk, gt_iff_lt]
  rcases lt_or_le k.lastGood st.dateLastGood with hlt | hle
  · by_cases ht : s.serverType = .MERCHANT_API <;> simp [hlt, ht]
  · simp [not_lt.2 hle, max_eq_left hle]

@[simp] theorem serverType_setWalletUsage (env : ApiEnv) (s : NewServer) (walletPath : String)
    (st : NetworkServerState) : (s.setWalletUsage env walletPath st).serverType = s.serverType :=
  rfl

theorem le_foldl_max : ∀ (a : Int) (l : List Int), a ≤ l.foldl max a
  | _, [] => le_rfl
  | a, x :: l => (le_max_left a x).trans (le_foldl_max _ l)

theorem foldl_max_mono : ∀ {a b : Int} (l : List Int), a ≤ b → l.foldl max a ≤ l.foldl max b
  | _, _, [], h => h
  | _, _, _ :: l, h => foldl_max_mono l (max_le_max h le_rfl)

section Merge

variable (env : ApiEnv) (id : Option CredentialId)

theorem setWalletUsages_cons (s : NewServer) (call : String × NetworkServerState)
    (calls : List (String × NetworkServerState)) :
    s.setWalletUsages env (call :: calls) =
      (s.setWalletUsage env call.1 call.2).setWalletUsages env calls := rfl

@[simp] theorem serverType_setWalletUsages (s : NewServer)
    (calls : List (String × NetworkServerState)) :
    (s.setWalletUsages env calls).serverType = s.serverType := by
  induction calls generalizing s with
  | nil => rfl
  | cons call calls ih => exact ih _

theorem lastGood_setWalletUsages : ∀ (s : NewServer) (calls : List (String × NetworkServerState)),
    (∀ call ∈ calls, call.2.credentialId = id) →
    ((s.setWalletUsages env calls).keyState id).lastGood =
      if s.serverType = .MERCHANT_API then
        (calls.map (·.2.dateLastGood)).foldl max (s.keyState id).lastGood
      else (s.keyState id).lastGood
  | s, [], _ => by simp [setWalletUsages]
  | s, call :: calls, h => by
    have hg := (keyState_setWalletUsage env s call.1 call.2).1
    rw [h call (.head _)] at hg
    rw [setWalletUsages_cons, lastGood_setWalletUsages _ calls fun c hc => h c (.tail _ hc), hg]
    split <;> simp_all

theorem lastTry_setWalletUsages_bounds : ∀ (s : NewServer)
    (calls : List (String × NetworkServerState)), (∀ call ∈ calls, call.2.credentialId = id) →
    (s.keyState id).lastTry ≤ ((s.setWalletUsages env calls).keyState id).lastTry ∧
      ((s.setWalletUsages env calls).keyState id).lastTry ≤
        (calls.map (·.2.dateLastTry)).foldl max (s.keyState id).lastTry
  | s, [], _ => by simp [setWalletUsages]
  | s, call :: calls, h => by
    have ht := (keyState_setWalletUsage env s call.1 call.2).2
    rw [h call (.head _)] at ht
    obtain ⟨h1, h2⟩ := lastTry_setWalletUsages_bounds _ calls fun c hc => h c (.tail _ hc)
    rw [ht] at h1 h2
    have hstep : (s.keyState id).lastTry ≤ (if (s.keyState id).lastGood < call.2.dateLastGood then
        max (s.keyState id).lastTry call.2.dateLastTry else (s.keyState id).lastTry) ∧
        (if (s.keyState id).lastGood < call.2.dateLastGood then
          max (s.keyState id).lastTry call.2.dateLastTry else (s.keyState id).lastTry) ≤
        max (s.keyState id).lastTry call.2.dateLastTry := by
      split <;> omega
    exact ⟨hstep.1.trans h1, h2.trans (foldl_max_mono _ hstep.2)⟩

theorem lastTry_setWalletUsages_of_ne : ∀ (s : NewServer)
    (calls : List (String × NetworkServerState)), s.serverType ≠ .MERCHANT_API →
    (∀ call ∈ calls, call.2.credentialId = id) →
    ((s.setWalletUsages env calls).keyState id).lastTry =
      ((calls.filter fun call => (s.keyState id).lastGood < call.2.dateLastGood).map
        (·.2.dateLastTry)).foldl max (s.keyState id).lastTry
  | s, [], _, _ => rfl
  | s, call :: calls, hs, h => by
    obtain ⟨hg, ht⟩ := keyState_setWalletUsage env s call.1 call.2
    rw [h call (.head _), if_neg hs] at hg
    rw [h call (.head _)] at ht
    rw [setWalletUsages_cons, lastTry_setWalletUsages_of_ne (s.setWalletUsage env call.1 call.2)
      calls hs fun c hc => h c (.tail _ hc), hg, ht, List.filter_cons]
    by_cases hlt : (s.keyState id).lastGood < call.2.dateLastGood <;> simp [hlt]

end Merge

end NewServer

theorem merged_key_state (env : ApiEnv) (s : NewServer) (id : Option CredentialId)
    (calls : List (String × NetworkServerState)) (hid : ∀ call ∈ calls, call.2.credentialId = id) :
    ((s.setWalletUsages env calls).keyState id).lastGood =
        (if s.serverType = .MERCHANT_API then
          (calls.map (·.2.dateLastGood)).foldl max (s.keyState id).lastGood
        else (s.keyState id).lastGood) ∧
      (s.keyState id).lastTry ≤ ((s.setWalletUsages env calls).keyState id).lastTry ∧
      ((s.setWalletUsages env calls).keyState id).lastTry ≤
        (calls.map (·.2.dateLastTry)).foldl max (s.keyState id).lastTry ∧
      (s.serverType ≠ .MERCHANT_API →
        ((s.setWalletUsages env calls).keyState id).lastTry =
          ((calls.filter fun call => (s.keyState id).lastGood < call.2.dateLastGood).map
            (·.2.dateLastTry)).foldl max (s.keyState id).lastTry) ∧
      ∀ calls' : List (String × NetworkServerState), calls'.Perm calls →
        ((s.setWalletUsages env calls').keyState id).lastGood =
          ((s.setWalletUsages env calls).keyState id).lastGood ∧
        (s.serverType ≠ .MERCHANT_API → ((s.setWalletUsages env calls').keyState id).lastTry =
          ((s.setWalletUsages env calls).keyState id).lastTry) := by
  have hid' : ∀ calls' : List (String × NetworkServerState), calls'.Perm calls →
      ∀ call ∈ calls', call.2.credentialId = id :=
    fun _ hp call hc => hid call (hp.subset hc)
  refine ⟨NewServer.lastGood_setWalletUsages env id s calls hid,
    (NewServer.lastTry_setWalletUsages_bounds env id s calls hid).1,
    (NewServer.lastTry_setWalletUsages_bounds env id s calls hid).2,
    fun hs => NewServer.lastTry_setWalletUsages_of_ne env id s calls hs hid,
    fun calls' hp => ⟨?_, fun hs => ?_⟩⟩
  · rw [NewServer.lastGood_setWalletUsages env id s calls hid,
      NewServer.lastGood_setWalletUsages env id s calls' (hid' _ hp), (hp.map _).foldl_eq]
  · rw [NewServer.lastTry_setWalletUsages_of_ne env id s calls hs hid,
      NewServer.lastTry_setWalletUsages_of_ne env id s calls' hs (hid' _ hp),
      ((hp.filter _).map _).foldl_eq]

/-- A merchant API server from a wallet, with no config entry. -/
def walletMapiServer : NewServer := (NewServer.init "mapi" .MERCHANT_API none {}).server

/-- A server of another type from a wallet. -/
def walletGeneralServer : NewServer := (NewServer.init "general" .GENERAL none {}).server

/-- A restored state last good at `10` and last tried at `5`. -/
def goodEarlierState : NetworkServerState := ⟨1, none, none, 5, 10⟩

/-- A restored state of the same credential last good at `5` and last tried at `20`. -/
def triedLaterState : NetworkServerState := ⟨2, none, none, 20, 5⟩

theorem walletMapiServer_merged_key_state :
    (∀ call ∈ [("a", goodEarlierState), ("b", triedLaterState)], call.2.credentialId = none) ∧
    ((walletMapiServer.setWalletUsages sampleApiEnv
      [("a", goodEarlierState), ("b", triedLaterState)]).keyState none).lastGood = 10 :=
  ⟨by decide, by
    rw [(merged_key_state sampleApiEnv walletMapiServer none _ (by decide)).1]
    decide⟩

/-- A merchant API server that merges two restored states of one credential ends with a
`last_try` that depends on their order. -/
theorem merchant_last_try_order_matters :
    ((walletMapiServer.setWalletUsages sampleApiEnv
      [("a", goodEarlierState), ("b", triedLaterState)]).keyState none).lastTry = 5 ∧
    ((walletMapiServer.setWalletUsages sampleApiEnv
      [("b", triedLaterState), ("a", goodEarlierState)]).keyState none).lastTry = 20 := by
  decide

/-! ## Unloading a wallet after priming the server -/

/-- The entries of a wallet's accounts once one of its accounts is registered, when it had none. -/
theorem NewServer.filter_insert_entries (s : NewServer) (walletPath : String)
    (ctx : NewServerAPIContext) (v : Option CredentialId) (hctx : ctx.walletPath = walletPath)
    (hnew : ∀ e ∈ s.clientApiKeys.entries, e.1.walletPath ≠ walletPath) :
    (s.clientApiKeys.insert ctx v).entries.filter (·.1.walletPath = walletPath) = [⟨ctx, v⟩] := by
  rw [AList.insert_entries, List.filter_cons_of_pos (by simpa using hctx),
    List.filter_eq_nil_iff.2 fun e he => by simpa using hnew e ((List.kerase_sublist _ _).subset he)]

/-- On a server that is not a merchant API server, a wallet with no account on it that primes a
credential the server has no state for, and is then unloaded, reports `date_last_good` as `0`,
whatever it stored. -/
theorem unregister_reports_lost_last_good (env : ApiEnv) (s : NewServer) (walletPath : String)
    (st : NetworkServerState) (hty : s.serverType ≠ .MERCHANT_API)
    (hfresh : st.credentialId ∉ s.apiKeyState)
    (hnew : ∀ e ∈ s.clientApiKeys.entries, e.1.walletPath ≠ walletPath) :
    ((s.setWalletUsage env walletPath st).unregisterWallet env walletPath).map
      (fun r => r.2.map (·.dateLastGood)) = some [0] := by
  have hmine := NewServer.filter_insert_entries s walletPath ⟨walletPath, st.accountId⟩
    st.credentialId rfl hnew
  simp only [NewServer.setWalletUsage] at hmine ⊢
  simp only [NewServer.unregisterWallet, hmine, List.mapM_cons, List.mapM_nil,
    NewServer.reportUsage, AList.lookup_insert, NewServer.ensureKeyState, if_neg hfresh, hty,
    if_false, Option.getD_some]
  split <;> simp

theorem walletGeneralServer_unregister_reports_lost_last_good :
    goodEarlierState.dateLastGood = 10 ∧ walletGeneralServer.serverType ≠ .MERCHANT_API ∧
      goodEarlierState.credentialId ∉ walletGeneralServer.apiKeyState ∧
      (∀ e ∈ walletGeneralServer.clientApiKeys.entries, e.1.walletPath ≠ "a") ∧
      ((walletGeneralServer.setWalletUsage sampleApiEnv "a" goodEarlierState).unregisterWallet
        sampleApiEnv "a").map (fun r => r.2.map (·.dateLastGood)) = some [0] :=
  ⟨rfl, by decide, by decide, by decide,
    unregister_reports_lost_last_good sampleApiEnv walletGeneralServer "a" goodEarlierState
      (by decide) (by decide) (by decide)⟩

end ElectrumSV
