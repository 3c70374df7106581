import ElectrumSV.Scanner.EnumeratorRun

/-!
# The scan loop

`BlockchainScanner.scan_for_usage` is a coroutine on the application's event loop. It runs
without interruption from one `await self._event.wait()` to the next, and everything else happens
between those stretches, in any order: the network delivers results for registered subscriptions
(`ScriptHashHandler._on_script_hash_result`) and an outside caller may call `shutdown`.

The model is a step function over the scanner's state together with the transport's undelivered
subscriptions: `resume` runs one stretch of the loop (`iterate`), `complete i history` delivers the
`i`-th undelivered subscription, and `shutdown` is an outside call. The network delivers each
registered subscription at most once, and none after the handler has removed its subscription
owner. Every step of the scanner is a step of its enumerator run or leaves it alone
(`step_run`), so the invariants of `EnumeratorRun` hold along every scan (`Reachable.run`).
-/

namespace ElectrumSV

variable {Key : Type}

/-- Why `scan_for_usage` left its loop. -/
inductive ExitReason
  /-- The `while` test failed: nothing outstanding and no sources. -/
  | noSources
  /-- "Blockchain scan exit reason, manual interruption". -/
  | manualInterruption
  /-- "Blockchain scan exit reason, BIP32 exhaustion". -/
  | bip32Exhaustion
  deriving DecidableEq, Repr

/-- Where the coroutine is. -/
inductive LoopPoint
  /-- Created but not yet run. -/
  | start
  /-- Suspended at `await self._event.wait()`. -/
  | waiting
  /-- Returned from `scan_for_usage`. -/
  | exited (reason : ExitReason)
  deriving DecidableEq, Repr

/-- A `BlockchainScanner` with its `ScriptHashHandler`, and the network's subscriptions for it. -/
structure BlockchainScanner (Key : Type) where
  /-- The enumerator, with its ghost log. -/
  run : EnumeratorRun Key
  activeSubscriptions : TokenMap SearchEntry
  event : Bool
  shouldExit : Bool
  scanEntryCount : Nat
  /-- `ScriptHashHandler._results`. -/
  results : TokenMap ScriptHashHistory
  /-- Whether the handler's subscription owner is still registered with the network. -/
  ownerRegistered : Bool
  /-- Subscriptions registered with the network and not yet delivered. -/
  inflight : List SubscriptionEntry
  loop : LoopPoint

/-- What `_on_script_hash_result` raises: `SubscriptionStale` after deleting the token from the
active set, or the `KeyError` of `delete_active_subscription`. -/
inductive CompletionOutcome
  | subscriptionStale
  | keyError
  deriving DecidableEq, Repr

/-- The record `_on_script_hash_result` stores for a history of `entry`. -/
def historyRecord (paths : List (BIP32ParentPath Key)) (entry : SearchEntry) (history : History) :
    ScriptHashHistory :=
  match entry.kind, entry.parentPath with
  | .BIP32, some j =>
    { history := history, bip32Subpath := paths[j]?.map (·.subpath),
      bip32SubpathIndex := entry.parentIndex }
  | _, _ => { history := history }

namespace BlockchainScanner

/-- A scanner over a configured enumerator, before `scan_for_usage` runs. -/
def init (e : SearchKeyEnumerator Key) : BlockchainScanner Key where
  run := EnumeratorRun.init e
  activeSubscriptions := ∅
  event := false
  shouldExit := false
  scanEntryCount := 0
  results := ∅
  ownerRegistered := true
  inflight := []
  loop := .start

/-- `BlockchainScanner.shutdown`: a repeated call is ignored; the first sets `_should_exit` and
`ScriptHashHandler.shutdown` removes the subscription owner from the network. -/
def shutdown (s : BlockchainScanner Key) : BlockchainScanner Key :=
  if s.shouldExit then s else { s with shouldExit := true, ownerRegistered := false }

/-- `delete_active_subscription`; `none` is the `KeyError` of `del` on a missing token. -/
def deleteActiveSubscription (s : BlockchainScanner Key) (itemHash : Bytes) :
    Option (BlockchainScanner Key) :=
  if itemHash ∈ s.activeSubscriptions then
    some { s with activeSubscriptions := s.activeSubscriptions.erase itemHash, event := true }
  else none

/-- `_extend_range`: the progress count handed to the callback. -/
def extendRange (s : BlockchainScanner Key) (number : Nat) : BlockchainScanner Key :=
  { s with scanEntryCount := s.scanEntryCount + number }

/-- Track new entries in `_active_subscriptions`, then `register_pending_entries` hands their
wrapped subscriptions to the network. -/
def registerEntries (s : BlockchainScanner Key) (newEntries : List SearchEntry) :
    BlockchainScanner Key :=
  { s with
    activeSubscriptions :=
      newEntries.foldl (fun active entry => active.insert entry.itemHash entry) s.activeSubscriptions
    inflight := s.inflight ++ newEntries.map wrapSearchEntry }

variable (c : ScanConfig Key)

/-- One stretch of `scan_for_usage`: the loop test and body up to the next `await`, or the exit
and its final `self.shutdown()`. -/
def iterate (s : BlockchainScanner Key) : BlockchainScanner Key :=
  if ¬(0 < TokenMap.size s.activeSubscriptions ∨ s.run.enumerator.hasSources = true) then
    { s.shutdown with loop := .exited .noSources }
  else if s.shouldExit then
    { s.shutdown with loop := .exited .manualInterruption }
  else
    let requiredEntries := minimumActiveSubscriptions - TokenMap.size s.activeSubscriptions
    let created := s.run.createNewEntries c requiredEntries
    if 0 < created.2.length then
      { ({ s with run := created.1 }.extendRange created.2.length).registerEntries created.2 with
        loop := .waiting }
    else if TokenMap.size s.activeSubscriptions = 0 ∧ created.1.enumerator.isDone c = true then
      { { s with run := created.1 }.shutdown with loop := .exited .bip32Exhaustion }
    else { s with run := created.1, loop := .waiting }

/-- `_on_script_hash_result` for a delivered subscription: record the history, update the parent
path, then delete the token from the active set. -/
def onScriptHashResult (s : BlockchainScanner Key) (subscription : SubscriptionEntry)
    (history : History) : BlockchainScanner Key × CompletionOutcome :=
  let entry := subscription.context
  let recorded := { s with
    results := s.results.insert subscription.scriptHash
      (historyRecord s.run.enumerator.bip32Paths entry history)
    run := s.run.complete entry history }
  match recorded.deleteActiveSubscription subscription.scriptHash with
  | some deleted => (deleted, .subscriptionStale)
  | none => (recorded, .keyError)

end BlockchainScanner

/-- What can happen next to a scan. -/
inductive ScanAction
  /-- The coroutine runs: its first stretch, or a wake-up once its event is set. -/
  | resume
  /-- The network delivers the `i`-th undelivered subscription with a history. -/
  | complete (i : Nat) (history : History)
  /-- An outside call of `BlockchainScanner.shutdown`. -/
  | shutdown

namespace BlockchainScanner

variable (c : ScanConfig Key)

/-- One step of a scan; `none` when the action is not enabled. -/
def step (s : BlockchainScanner Key) : ScanAction → Option (BlockchainScanner Key)
  | .resume =>
    match s.loop with
    | .start => some (s.iterate c)
    | .waiting => if s.event then some ({ s with event := false }.iterate c) else none
    | .exited _ => none
  | .complete i history =>
    match s.inflight[i]?, s.ownerRegistered with
    | some subscription, true =>
      some ({ s with inflight := s.inflight.eraseIdx i }.onScriptHashResult subscription history).1
    | _, _ => none
  | .shutdown => some s.shutdown

/-- The states of scans over fresh enumerators. -/
inductive Reachable : BlockchainScanner Key → Prop
  | init {e : SearchKeyEnumerator Key} : e.Fresh → Reachable (init e)
  | step {s s' : BlockchainScanner Key} {a : ScanAction} :
      Reachable s → s.step c a = some s' → Reachable s'

/-- The scan after the actions `as` in turn, or `none` once one of them is not enabled. -/
def runActions (s : BlockchainScanner Key) : List ScanAction → Option (BlockchainScanner Key)
  | [] => some s
  | a :: as =>
    match s.step c a with
    | some s' => runActions s' as
    | none => none

theorem Reachable.runActions {s s' : BlockchainScanner Key} {as : List ScanAction}
    (hr : Reachable c s) (h : s.runActions c as = some s') : Reachable c s' := by
  induction as generalizing s with
  | nil => cases h; exact hr
  | cons a as ih =>
    simp only [BlockchainScanner.runActions] at h
    split at h
    case h_1 hs => exact ih (hr.step hs) h
    case h_2 => cases h

end BlockchainScanner

/-! ## What each step does -/

namespace BlockchainScanner

variable (c : ScanConfig Key) (s : BlockchainScanner Key)

theorem shutdown_eq :
    s.shutdown = { s with shouldExit := true, ownerRegistered := s.shouldExit && s.ownerRegistered } := by
  unfold shutdown
  cases s
  split <;> simp_all

/-- A repeated `shutdown` is ignored. -/
theorem shutdown_of_shouldExit (h : s.shouldExit = true) : s.shutdown = s := if_pos h

@[simp] theorem shutdown_run : s.shutdown.run = s.run := by rw [shutdown_eq]
@[simp] theorem shutdown_activeSubscriptions :
    s.shutdown.activeSubscriptions = s.activeSubscriptions := by rw [shutdown_eq]
@[simp] theorem shutdown_event : s.shutdown.event = s.event := by rw [shutdown_eq]
@[simp] theorem shutdown_shouldExit : s.shutdown.shouldExit = true := by rw [shutdown_eq]
@[simp] theorem shutdown_results : s.shutdown.results = s.results := by rw [shutdown_eq]
@[simp] theorem shutdown_ownerRegistered :
    s.shutdown.ownerRegistered = (s.shouldExit && s.ownerRegistered) := by rw [shutdown_eq]
@[simp] theorem shutdown_inflight : s.shutdown.inflight = s.inflight := by rw [shutdown_eq]
@[simp] theorem shutdown_loop : s.shutdown.loop = s.loop := by rw [shutdown_eq]

theorem onScriptHashResult_fst (subscription : SubscriptionEntry) (history : History) :
    (s.onScriptHashResult subscription history).1 = { s with
      results := s.results.insert subscription.scriptHash
        (historyRecord s.run.enumerator.bip32Paths subscription.context history)
      run := s.run.complete subscription.context history
      activeSubscriptions := if subscription.scriptHash ∈ s.activeSubscriptions then
        s.activeSubscriptions.erase subscription.scriptHash else s.activeSubscriptions
      event := if subscription.scriptHash ∈ s.activeSubscriptions then true else s.event } := by
  unfold onScriptHashResult deleteActiveSubscription
  split <;> simp_all

theorem onScriptHashResult_snd (subscription : SubscriptionEntry) (history : History) :
    (s.onScriptHashResult subscription history).2 =
      if subscription.scriptHash ∈ s.activeSubscriptions then .subscriptionStale else .keyError := by
  unfold onScriptHashResult deleteActiveSubscription
  split <;> simp_all

/-- The loop body up to its `await`: ask for entries to fill the window, then register them. -/
def fill : BlockchainScanner Key × List SearchEntry :=
  let created := s.run.createNewEntries c
    (minimumActiveSubscriptions - TokenMap.size s.activeSubscriptions)
  ((({ s with run := created.1 }.extendRange created.2.length).registerEntries created.2), created.2)

section Fill

@[simp] theorem fill_run :
    (s.fill c).1.run =
      (s.run.createNewEntries c (minimumActiveSubscriptions - TokenMap.size s.activeSubscriptions)).1 :=
  rfl
@[simp] theorem fill_snd :
    (s.fill c).2 = (s.run.enumerator.createNewEntries c
      (minimumActiveSubscriptions - TokenMap.size s.activeSubscriptions)).2 := rfl
theorem fill_activeSubscriptions :
    (s.fill c).1.activeSubscriptions = (s.fill c).2.foldl
      (fun active entry => active.insert entry.itemHash entry) s.activeSubscriptions := rfl
theorem fill_inflight : (s.fill c).1.inflight = s.inflight ++ (s.fill c).2.map wrapSearchEntry := rfl
@[simp] theorem fill_event : (s.fill c).1.event = s.event := rfl
@[simp] theorem fill_shouldExit : (s.fill c).1.shouldExit = s.shouldExit := rfl
@[simp] theorem fill_results : (s.fill c).1.results = s.results := rfl
@[simp] theorem fill_ownerRegistered : (s.fill c).1.ownerRegistered = s.ownerRegistered := rfl
@[simp] theorem fill_loop : (s.fill c).1.loop = s.loop := rfl

end Fill

/-- A stretch of the loop exits on its test or on `_should_exit`, or fills the window and then
waits, or (nothing new, nothing outstanding, `is_done()`) exits on exhaustion. -/
theorem iterate_cases :
    (s.iterate c = { s.shutdown with loop := .exited .noSources } ∧
      TokenMap.size s.activeSubscriptions = 0 ∧ s.run.enumerator.hasSources = false) ∨
    (s.iterate c = { s.shutdown with loop := .exited .manualInterruption } ∧
      s.shouldExit = true) ∨
    (s.shouldExit = false ∧
      ((s.iterate c = { (s.fill c).1 with loop := .waiting } ∧
        ((s.fill c).2 = [] → 0 < TokenMap.size s.activeSubscriptions ∨
          (s.fill c).1.run.enumerator.isDone c = false)) ∨
      (s.iterate c = { (s.fill c).1.shutdown with loop := .exited .bip32Exhaustion } ∧
        (s.fill c).2 = [] ∧ TokenMap.size s.activeSubscriptions = 0 ∧
        (s.fill c).1.run.enumerator.isDone c = true))) := by
  unfold iterate
  split
  case isTrue h =>
    left
    simp only [not_or, Bool.not_eq_true] at h
    exact ⟨rfl, by omega, h.2⟩
  case isFalse =>
    split
    case isTrue h => exact .inr (.inl ⟨rfl, h⟩)
    case isFalse h =>
      refine .inr (.inr ⟨by simpa using h, ?_⟩)
      simp only [fill]
      split
      case isTrue hnew =>
        exact .inl ⟨rfl, fun h0 => by simp_all⟩
      case isFalse hnew =>
        have h0 : (s.run.createNewEntries c
            (minimumActiveSubscriptions - TokenMap.size s.activeSubscriptions)).2 = [] := by
          simpa using hnew
        simp only [h0, List.length_nil, registerEntries, extendRange, List.foldl_nil,
          List.map_nil, List.append_nil, Nat.add_zero]
        split
        case isTrue hd => exact .inr ⟨rfl, trivial, hd⟩
        case isFalse hd =>
          refine .inl ⟨rfl, fun _ => ?_⟩
          by_cases h1 : TokenMap.size s.activeSubscriptions = 0
          · simp_all
          · exact .inl (Nat.pos_of_ne_zero h1)

variable {c s} {a : ScanAction} {s' : BlockchainScanner Key}

/-- A scan step runs a stretch of the loop (clearing a set event when it wakes), delivers an
undelivered subscription while the owner is registered, or shuts down. -/
theorem step_cases (hs : s.step c a = some s') :
    (∃ b, s' = { s with event := b }.iterate c ∧
      (s.loop = .start ∨ s.loop = .waiting ∧ s.event = true ∧ b = false)) ∨
    (∃ i sub history, s.inflight[i]? = some sub ∧ s.ownerRegistered = true ∧
      s' = ({ s with inflight := s.inflight.eraseIdx i }.onScriptHashResult sub history).1) ∨
    s' = s.shutdown := by
  cases a with
  | resume =>
    simp only [step] at hs
    split at hs
    case h_1 hl => exact .inl ⟨s.event, by cases hs; rfl, .inl hl⟩
    case h_2 hl =>
      split at hs
      case isTrue he => exact .inl ⟨false, by cases hs; rfl, .inr ⟨hl, he, rfl⟩⟩
      case isFalse => cases hs
    case h_3 => cases hs
  | complete i history =>
    simp only [step] at hs
    split at hs
    case h_1 sub hi ho => exact .inr (.inl ⟨i, sub, history, hi, ho, by cases hs; rfl⟩)
    case h_2 => cases hs
  | shutdown => exact .inr (.inr (by cases hs; rfl))

end BlockchainScanner

end ElectrumSV
