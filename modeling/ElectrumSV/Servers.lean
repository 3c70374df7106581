import Mathlib.Data.List.Sort
import ElectrumSV.ApiServer
import ElectrumSV.Transaction.Size

/-!
# Using API servers

`unregister_wallet` looks up the access state of every credential it reports and asserts that a
server other than a merchant API server holds no fee quote response. Only a merchant API server
takes a fee quote from the state a wallet restores, so both hold in every reachable state, and
unloading a wallet never raises (`Reachable.unregisterWallet_isSome`). With the credentials that
stay registered, `should_request_fee_quote` answers for every credential that
`get_credential_id` grants, the `None` of a config whose API key has been dropped apart
(`Reachable.shouldRequestFeeQuote_of_granted`).

`select_servers` keeps, in order, the candidates whose server type lists the capability asked
for in `SERVER_CAPABILITIES`. `prioritise_broadcast_servers` prices a transaction with each
candidate's fee estimator and sorts the candidates by that fee with Python's stable `sort`. It
asserts that a merchant API candidate has its server and a fee quote, and raises
`NotImplementedError` for a server type it cannot price. No such server type can broadcast, so
over what `select_servers` picks for broadcasting that error never escapes, and with the fee
quotes in place every candidate comes back once, cheapest first (`prioritise_selected_servers`).
-/

namespace ElectrumSV

/-! ## Unloading a wallet -/

namespace NewServer

variable {env : ApiEnv} {s : NewServer}

/-- Only a merchant API server holds fee quote responses, as `unregister_wallet` asserts. -/
def QuotesOnMapi (s : NewServer) : Prop :=
  s.serverType ≠ .MERCHANT_API →
    ∀ id k, s.apiKeyState.lookup id = some k → k.lastFeeQuoteResponse = none

theorem lookup_ensureKeyState {id k : Option CredentialId} {v : NewServerAccessState}
    (h : (s.ensureKeyState id).lookup k = some v) : s.apiKeyState.lookup k = some v ∨ v = {} := by
  unfold ensureKeyState at h
  split at h
  · exact .inl h
  · by_cases hk : k = id
    · subst hk
      rw [AList.lookup_insert] at h
      exact .inr (Option.some.inj h).symm
    · rw [AList.lookup_insert_ne hk] at h
      exact .inl h

theorem QuotesOnMapi.ensureKeyState (h : QuotesOnMapi s) (hty : s.serverType ≠ .MERCHANT_API)
    {id k : Option CredentialId} {v : NewServerAccessState}
    (hv : (s.ensureKeyState id).lookup k = some v) : v.lastFeeQuoteResponse = none :=
  (lookup_ensureKeyState hv).elim (h hty k v) fun e => e ▸ rfl

theorem eq_of_lookup_insert_empty {a k : Option CredentialId} {b v : NewServerAccessState}
    (h : ((∅ : AList fun _ : Option CredentialId => NewServerAccessState).insert a b).lookup k =
      some v) : v = b := by
  by_cases hk : k = a
  · subst hk
    rw [AList.lookup_insert] at h
    exact (Option.some.inj h).symm
  · rw [AList.lookup_insert_ne hk, AList.lookup_empty] at h
    cases h

theorem quotesOnMapi_init (url : String) (serverType : NetworkServerType)
    (config : Option ServerConfig) (cache : CredentialCache) :
    QuotesOnMapi (init url serverType config cache).server := by
  intro _ id k hk
  unfold init at hk
  split at hk
  · cases hk
  · rw [eq_of_lookup_insert_empty hk]

theorem QuotesOnMapi.setWalletUsage (h : QuotesOnMapi s) (walletPath : String)
    (st : NetworkServerState) : QuotesOnMapi (s.setWalletUsage env walletPath st) := by
  intro hty id k hk
  rw [serverType_setWalletUsage] at hty
  by_cases hid : id = st.credentialId
  · subst hid
    have hbase : (((s.ensureKeyState st.credentialId).lookup st.credentialId).getD
        {}).lastFeeQuoteResponse = none := by
      cases hl : (s.ensureKeyState st.credentialId).lookup st.credentialId with
      | none => rfl
      | some v => exact h.ensureKeyState hty hl
    simp only [NewServer.setWalletUsage, AList.lookup_insert, Option.some.injEq, if_neg hty] at hk
    subst hk
    split <;> exact hbase
  · simp only [NewServer.setWalletUsage, AList.lookup_insert_ne hid] at hk
    exact h.ensureKeyState hty hk

theorem QuotesOnMapi.onPendingConfigChange (h : QuotesOnMapi s) {cache : CredentialCache}
    {configUpdate : ServerConfig} {sys : ServerSystem}
    (hs : s.onPendingConfigChange cache configUpdate = some sys) : QuotesOnMapi sys.server := by
  have htake : ∀ id, QuotesOnMapi
      { s with configCredentialId := some id, apiKeyState := s.ensureKeyState (some id) } :=
    fun _ hty _ _ hk => h.ensureKeyState hty hk
  simp only [NewServer.onPendingConfigChange, Option.bind_eq_bind, guard, Option.pure_def] at hs
  split at hs
  · cases hc : s.configCredentialId <;>
      simp only [hc, Option.some_bind] at hs <;> split at hs <;> cases hs
    case none.isTrue.refl | some.isTrue.refl => exact htake _
    case none.isFalse.refl | some.isFalse.refl => exact h
  · cases hs

end NewServer

namespace ServerSystem

theorem step_quotesOnMapi {env : ApiEnv} {sys sys' : ServerSystem} {a : ServerAction}
    (h : sys.server.QuotesOnMapi) (hs : sys.step env a = some sys') :
    sys'.server.QuotesOnMapi := by
  cases a with
  | setWalletUsage walletPath serverState =>
    cases hs
    exact h.setWalletUsage walletPath serverState
  | removeWalletUsage walletPath accountId =>
    obtain ⟨s', hs', rfl⟩ := Option.map_eq_some'.1 hs
    simp only [NewServer.removeWalletUsage] at hs'
    split at hs'
    · cases hs'
      exact h
    · cases hs'
  | unregisterWallet walletPath =>
    obtain ⟨r, hr, rfl⟩ := Option.map_eq_some'.1 hs
    simp only [NewServer.unregisterWallet, Option.bind_eq_bind, Option.bind_eq_some,
      Option.pure_def, Option.some.injEq] at hr
    obtain ⟨_, -, rfl⟩ := hr
    exact h
  | onPendingConfigChange configUpdate => exact h.onPendingConfigChange hs

theorem Reachable.quotesOnMapi {env : ApiEnv} {sys : ServerSystem} (hr : Reachable env sys) :
    sys.server.QuotesOnMapi := by
  induction hr with
  | init url serverType config cache =>
    exact NewServer.quotesOnMapi_init url serverType config cache
  | step a _ hs ih => exact step_quotesOnMapi ih hs

/-- In every reachable state, unloading any wallet returns the states of its accounts: each
account's credential has an access state, and no server other than a merchant API server holds
a fee quote response. -/
theorem Reachable.unregisterWallet_isSome {env : ApiEnv} {sys : ServerSystem}
    (hr : Reachable env sys) (walletPath : String) :
    (sys.server.unregisterWallet env walletPath).isSome := by
  have hkeys := hr.keys_registered
  have hquotes := hr.quotesOnMapi
  have hreport : ∀ e ∈ sys.server.clientApiKeys.entries.filter (·.1.walletPath = walletPath),
      ∃ st, sys.server.reportUsage env e.1 e.2 = some st ∧ True := by
    intro e he
    obtain ⟨k, hk⟩ := Option.isSome_iff_exists.1 (AList.lookup_isSome.2
      (hkeys.client e.1 e.2 (AList.mem_lookup_iff.2 (List.mem_filter.1 he).1)))
    cases hst : sys.server.reportUsage env e.1 e.2 with
    | some st => exact ⟨st, rfl, trivial⟩
    | none =>
      by_cases hty : sys.server.serverType = .MERCHANT_API
      · simp [NewServer.reportUsage, hk, hty] at hst
      · simp [NewServer.reportUsage, hk, hty, hquotes hty _ _ hk] at hst
  obtain ⟨results, hresults, -⟩ := exists_mapM_eq_some hreport
  simp only [NewServer.unregisterWallet, hresults]
  rfl

end ServerSystem

/-- `keyedServer` once a wallet has restored `goodEarlierState` into it. -/
def walletKeyedServer : ServerSystem :=
  { keyedServer with
    server := keyedServer.server.setWalletUsage sampleApiEnv "wallet" goodEarlierState }

theorem walletKeyedServer_unregisterWallet_isSome :
    ServerSystem.Reachable sampleApiEnv walletKeyedServer ∧
      (walletKeyedServer.server.unregisterWallet sampleApiEnv "wallet").isSome :=
  have hr : ServerSystem.Reachable sampleApiEnv walletKeyedServer :=
    .step (.setWalletUsage "wallet" goodEarlierState) (.init _ _ _ _) rfl
  ⟨hr, ServerSystem.Reachable.unregisterWallet_isSome hr "wallet"⟩

/-- `ServerCapability`, the members that `SERVER_CAPABILITIES` names. -/
inductive ServerCapability
  | BLOCKCHAIN_SCAN
  | TRANSACTION_BROADCAST
  | FEE_QUOTE
  | MERKLE_PROOF_REQUEST
  | MERKLE_PROOF_NOTIFICATION
  deriving DecidableEq, Repr

/-- `SERVER_CAPABILITIES`, by the `type` of each `CapabilitySupport`, the only field that
`select_servers` reads. -/
def SERVER_CAPABILITIES : NetworkServerType → List ServerCapability
  | .GENERAL => [.BLOCKCHAIN_SCAN]
  | .MERCHANT_API => [.TRANSACTION_BROADCAST, .FEE_QUOTE, .MERKLE_PROOF_NOTIFICATION]
  | .ELECTRUMX => [.BLOCKCHAIN_SCAN, .TRANSACTION_BROADCAST, .MERKLE_PROOF_REQUEST]

/-- `SelectionCandidate`, without the ElectrumX server object, which neither function reads. -/
structure SelectionCandidate where
  serverType : NetworkServerType
  credentialId : Option CredentialId
  apiServer : Option NewServer := none

/-- `select_servers`: each candidate, in order, when a capability of its server type is the one
asked for; the inner loop stops at the first. -/
def selectServers (capabilityType : ServerCapability) (candidates : List SelectionCandidate) :
    List SelectionCandidate :=
  candidates.foldl (fun filteredServers candidate =>
    if (SERVER_CAPABILITIES candidate.serverType).any (· == capabilityType) then
      filteredServers ++ [candidate]
    else filteredServers) []

/-- The fee estimators, which the model takes as given: `MAPIFeeEstimator(quote).estimate_fee`
and `app_state.config.estimate_fee`. -/
structure FeeEnv where
  mapiEstimateFee : FeeQuote → TransactionSize → Int
  estimateFee : TransactionSize → Int

/-- The `TransactionFeeEstimator` a candidate is given: its merchant API quote's, or the
application's. -/
inductive FeeEstimator
  | mapi (quote : FeeQuote)
  | electrumx
  deriving DecidableEq, Repr

/-- Calling an estimator. -/
def FeeEstimator.estimateFee (fe : FeeEnv) : FeeEstimator → TransactionSize → Int
  | .mapi quote => fe.mapiEstimateFee quote
  | .electrumx => fe.estimateFee

/-- `BroadcastCandidate`. -/
structure BroadcastCandidate where
  candidate : SelectionCandidate
  estimator : FeeEstimator
  initialFee : Int

/-- The exceptions that `prioritise_broadcast_servers` lets escape. -/
inductive PrioritiseError
  | AssertionError
  | KeyError
  /-- `NotImplementedError(f"Unsupported server type {candidate.server_type}")`. -/
  | NotImplementedError (serverType : NetworkServerType)
  deriving DecidableEq, Repr

/-- The estimator that the loop of `prioritise_broadcast_servers` gives one candidate. -/
def feeEstimatorOf (candidate : SelectionCandidate) : Except PrioritiseError FeeEstimator :=
  if candidate.serverType = .MERCHANT_API then
    match candidate.apiServer with
    | none => .error .AssertionError
    | some apiServer =>
      match apiServer.apiKeyState.lookup candidate.credentialId with
      | none => .error .KeyError
      | some keyState =>
        match keyState.lastFeeQuote with
        | none => .error .AssertionError
        | some quote => .ok (.mapi quote)
  else if candidate.serverType = .ELECTRUMX then .ok .electrumx
  else .error (.NotImplementedError candidate.serverType)

/-- One candidate of the loop: its estimator and the fee it asks for the transaction. -/
def broadcastCandidate (fe : FeeEnv) (estimatedTxSize : TransactionSize)
    (candidate : SelectionCandidate) : Except PrioritiseError BroadcastCandidate := do
  let feeEstimator ← feeEstimatorOf candidate
  pure ⟨candidate, feeEstimator, feeEstimator.estimateFee fe estimatedTxSize⟩

/-- `prioritise_broadcast_servers`: the candidates with their fees, sorted by fee with Python's
stable `sort`, which compares keys with `<` only. -/
def prioritiseBroadcastServers (fe : FeeEnv) (estimatedTxSize : TransactionSize)
    (servers : List SelectionCandidate) : Except PrioritiseError (List BroadcastCandidate) := do
  let candidates ← servers.mapM (broadcastCandidate fe estimatedTxSize)
  pure (candidates.mergeSort fun a b => !decide (b.initialFee < a.initialFee))

section ExceptLists

variable {ε α β : Type} {f : α → Except ε β}

theorem mapM_except_error : ∀ {l : List α} {e : ε}, l.mapM f = .error e → ∃ a ∈ l, f a = .error e
  | [], _, h => by cases h
  | a :: l, e, h => by
    rw [List.mapM_cons] at h
    cases ha : f a with
    | error e' =>
      rw [ha] at h
      cases h
      exact ⟨a, .head _, ha⟩
    | ok b =>
      cases hl : l.mapM f with
      | error e' =>
        rw [ha, hl] at h
        cases h
        obtain ⟨a', ha', hf⟩ := mapM_except_error hl
        exact ⟨a', .tail _ ha', hf⟩
      | ok bs => rw [ha, hl] at h; cases h

theorem map_of_mapM_except_ok {γ : Type} {g : α → γ} {h : β → γ}
    (hfg : ∀ a b, f a = .ok b → h b = g a) :
    ∀ {l : List α} {bs : List β}, l.mapM f = .ok bs → bs.map h = l.map g
  | [], _, hl => by cases hl; rfl
  | a :: l, bs, hl => by
    rw [List.mapM_cons] at hl
    cases ha : f a with
    | error e => rw [ha] at hl; cases hl
    | ok b =>
      cases hbs : l.mapM f with
      | error e => rw [ha, hbs] at hl; cases hl
      | ok bs' =>
        rw [ha, hbs] at hl
        cases hl
        rw [List.map_cons, List.map_cons, hfg a b ha, map_of_mapM_except_ok hfg hbs]

theorem exists_mapM_except_ok :
    ∀ {l : List α}, (∀ a ∈ l, ∃ b, f a = .ok b) → ∃ bs, l.mapM f = .ok bs
  | [], _ => ⟨[], rfl⟩
  | a :: l, h => by
    obtain ⟨b, hb⟩ := h a (.head _)
    obtain ⟨bs, hbs⟩ := exists_mapM_except_ok fun a ha => h a (.tail _ ha)
    exact ⟨b :: bs, by rw [List.mapM_cons, hb, hbs]; rfl⟩

end ExceptLists

theorem foldl_append_filter (p : SelectionCandidate → Bool) :
    ∀ (l acc : List SelectionCandidate),
      l.foldl (fun acc c => if p c then acc ++ [c] else acc) acc = acc ++ l.filter p
  | [], acc => by simp
  | c :: l, acc => by
    rw [List.foldl_cons, foldl_append_filter p l, List.filter_cons]
    split <;> simp

/-- The candidates that `select_servers` picks for broadcasting: all but those of a general
server. -/
theorem selectServers_broadcast (candidates : List SelectionCandidate) :
    selectServers .TRANSACTION_BROADCAST candidates =
      candidates.filter (·.serverType != .GENERAL) := by
  rw [selectServers, foldl_append_filter, List.nil_append]
  congr 1
  funext c
  cases c.serverType <;> rfl

theorem broadcastCandidate_candidate {fe : FeeEnv} {estimatedTxSize : TransactionSize}
    {c : SelectionCandidate} {b : BroadcastCandidate}
    (h : broadcastCandidate fe estimatedTxSize c = .ok b) : b.candidate = c := by
  unfold broadcastCandidate at h
  cases hf : feeEstimatorOf c with
  | error e => rw [hf] at h; cases h
  | ok est => rw [hf] at h; cases h; rfl

/-- Only a general server is not priced. -/
theorem feeEstimatorOf_ne_notImplemented {c : SelectionCandidate}
    (hc : c.serverType ≠ .GENERAL) (t : NetworkServerType) :
    feeEstimatorOf c ≠ .error (.NotImplementedError t) := by
  unfold feeEstimatorOf
  split
  · split
    · exact fun h => by cases h
    · split
      · exact fun h => by cases h
      · split <;> exact fun h => by cases h
  · split
    · exact fun h => by cases h
    · exact absurd (by cases h : c.serverType <;> simp_all) hc

/-- A candidate that is not a general server is priced where, being a merchant API candidate, its
server holds a fee quote for its credential. -/
theorem feeEstimatorOf_ok {c : SelectionCandidate} (hc : c.serverType ≠ .GENERAL)
    (hq : c.serverType = .MERCHANT_API → (c.apiServer.bind fun s =>
      (s.apiKeyState.lookup c.credentialId).bind (·.lastFeeQuote)).isSome) :
    ∃ est, feeEstimatorOf c = .ok est := by
  unfold feeEstimatorOf
  split
  · next hty =>
    obtain ⟨q, hq'⟩ := Option.isSome_iff_exists.1 (hq hty)
    obtain ⟨s, hs, hk⟩ := Option.bind_eq_some.1 hq'
    obtain ⟨k, hk, hq''⟩ := Option.bind_eq_some.1 hk
    simp only [hs, hk, hq'']
    exact ⟨_, rfl⟩
  · split
    · exact ⟨_, rfl⟩
    · exact absurd (by cases h : c.serverType <;> simp_all) hc

theorem broadcastCandidate_error {fe : FeeEnv} {estimatedTxSize : TransactionSize}
    {c : SelectionCandidate} {e : PrioritiseError}
    (h : broadcastCandidate fe estimatedTxSize c = .error e) : feeEstimatorOf c = .error e := by
  unfold broadcastCandidate at h
  cases hf : feeEstimatorOf c with
  | error e' => rw [hf] at h; cases h; rfl
  | ok est => rw [hf] at h; cases h

/-- Servers none of which is a general server are priced without `NotImplementedError`. -/
theorem prioritiseBroadcastServers_ne_notImplemented {fe : FeeEnv}
    {estimatedTxSize : TransactionSize} {servers : List SelectionCandidate}
    (h : ∀ c ∈ servers, c.serverType ≠ .GENERAL) (t : NetworkServerType) :
    prioritiseBroadcastServers fe estimatedTxSize servers ≠ .error (.NotImplementedError t) := by
  intro he
  unfold prioritiseBroadcastServers at he
  cases hm : servers.mapM (broadcastCandidate fe estimatedTxSize) with
  | ok bs => rw [hm] at he; cases he
  | error e =>
    rw [hm] at he
    cases he
    obtain ⟨c, hc, hb⟩ := mapM_except_error hm
    exact feeEstimatorOf_ne_notImplemented (h c hc) t (broadcastCandidate_error hb)

/-- Over the candidates that `select_servers` picks for broadcasting,
`prioritise_broadcast_servers` never raises `NotImplementedError`; and when the server of every
merchant API candidate holds a fee quote for the candidate's credential, it returns every
picked candidate once, with fees in increasing order. -/
theorem prioritise_selected_servers (fe : FeeEnv) (estimatedTxSize : TransactionSize)
    (candidates : List SelectionCandidate) :
    (∀ t, prioritiseBroadcastServers fe estimatedTxSize
      (selectServers .TRANSACTION_BROADCAST candidates) ≠ .error (.NotImplementedError t)) ∧
    ((∀ c ∈ candidates, c.serverType = .MERCHANT_API →
        (c.apiServer.bind fun s => (s.apiKeyState.lookup c.credentialId).bind
          (·.lastFeeQuote)).isSome) →
      ∃ r, prioritiseBroadcastServers fe estimatedTxSize
          (selectServers .TRANSACTION_BROADCAST candidates) = .ok r ∧
        (r.map (·.candidate)).Perm (candidates.filter (·.serverType != .GENERAL)) ∧
        r.Pairwise fun a b => a.initialFee ≤ b.initialFee) := by
  rw [selectServers_broadcast]
  have hpicked : ∀ c ∈ candidates.filter (·.serverType != .GENERAL), c.serverType ≠ .GENERAL :=
    fun c hc => by simpa using (List.mem_filter.1 hc).2
  refine ⟨prioritiseBroadcastServers_ne_notImplemented hpicked, fun hq => ?_⟩
  obtain ⟨bs, hbs⟩ := exists_mapM_except_ok (f := broadcastCandidate fe estimatedTxSize)
    fun c hc =>
      let ⟨_, hest⟩ := feeEstimatorOf_ok (hpicked c hc) (hq c (List.mem_filter.1 hc).1)
      ⟨_, by rw [broadcastCandidate, hest]; rfl⟩
  refine ⟨_, by rw [prioritiseBroadcastServers, hbs]; rfl, ?_, ?_⟩
  · have hmap := map_of_mapM_except_ok (h := (·.candidate)) (g := id)
      (fun _ _ hb => broadcastCandidate_candidate hb) hbs
    rw [List.map_id] at hmap
    rw [← hmap]
    exact (List.mergeSort_perm _ _).map _
  · exact (List.sorted_mergeSort (fun a b c hab hbc => by simp at *; omega)
      (fun a b => by simp; omega) bs).imp fun h => by simpa using h

/-- A fee environment for examples: a quote asks one per byte, the application two. -/
def sampleFeeEnv : FeeEnv := ⟨fun _ size => size.total, fun size => 2 * size.total⟩

/-- A merchant API server whose unnamed credential holds a fee quote. -/
def quotedServer : NewServer :=
  { walletMapiServer with apiKeyState := (∅ : AList _).insert none { lastFeeQuote := some ⟨0⟩ } }

/-- A general, an ElectrumX and a merchant API candidate. -/
def sampleCandidates : List SelectionCandidate :=
  [⟨.GENERAL, none, none⟩, ⟨.ELECTRUMX, none, none⟩, ⟨.MERCHANT_API, none, some quotedServer⟩]

theorem sampleCandidates_prioritise_selected_servers :
    (∀ t, prioritiseBroadcastServers sampleFeeEnv ⟨100, 0⟩
      (selectServers .TRANSACTION_BROADCAST sampleCandidates) ≠ .error (.NotImplementedError t)) ∧
    (∀ c ∈ sampleCandidates, c.serverType = .MERCHANT_API →
      (c.apiServer.bind fun s => (s.apiKeyState.lookup c.credentialId).bind
        (·.lastFeeQuote)).isSome) ∧
    ∃ r, prioritiseBroadcastServers sampleFeeEnv ⟨100, 0⟩
        (selectServers .TRANSACTION_BROADCAST sampleCandidates) = .ok r ∧
      (r.map (·.candidate)).Perm (sampleCandidates.filter (·.serverType != .GENERAL)) ∧
      r.Pairwise fun a b => a.initialFee ≤ b.initialFee :=
  have hq : ∀ c ∈ sampleCandidates, c.serverType = .MERCHANT_API →
      (c.apiServer.bind fun s => (s.apiKeyState.lookup c.credentialId).bind
        (·.lastFeeQuote)).isSome := by decide
  ⟨(prioritise_selected_servers sampleFeeEnv ⟨100, 0⟩ sampleCandidates).1, hq,
    (prioritise_selected_servers sampleFeeEnv ⟨100, 0⟩ sampleCandidates).2 hq⟩

end ElectrumSV
