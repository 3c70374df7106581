import ElectrumSV.Scanner.Loop

/-!
# The scanner's bookkeeping

`scan_for_usage` keeps two dictionaries keyed by token, `_active_subscriptions` and the handler's
`_results`, while the network holds the subscriptions it has not yet delivered. `Bookkeeping` says
how these agree with the enumerator's log in every reachable state of a scan, and `Reachable.run`
that the enumerator inside a scan only takes steps of `EnumeratorRun`, so that the invariants of
`EnumeratorRun` hold there too.

Two entries with one token (an explicit item added twice, say) share a slot in each dictionary:
the first completion deletes the slot and the second meets the `KeyError` of
`delete_active_subscription`. With distinct tokens every completion finds its token, the active set
counts the undelivered entries, and no result is written twice.

* `Reachable.bookkeeping`, `Reachable.run`: the bookkeeping and the simulation.
* `active_subscriptions_le`: the window never outgrows `MINIMUM_ACTIVE_SUBSCRIPTIONS` by more than
  one derivation step's fan-out.
* `distinct_tokens_resolved_once`: with distinct tokens, each completion finds its token.
-/

namespace ElectrumSV

variable {Key : Type}

theorem perm_cons_eraseIdx {α : Type} [DecidableEq α] {l : List α} {i : Nat} {x : α}
    (h : l[i]? = some x) : l.Perm (x :: l.eraseIdx i) := by
  obtain ⟨hi, rfl⟩ := List.getElem?_eq_some_iff.1 h
  exact (List.perm_cons_erase (List.getElem_mem hi)).trans (.cons _ (List.erase_getElem hi))

section Registration

variable (entries : List SearchEntry) (d : TokenMap SearchEntry)

theorem mem_foldl_insert (t : Bytes) :
    t ∈ entries.foldl (fun active entry => active.insert entry.itemHash entry) d ↔
      t ∈ d ∨ ∃ e ∈ entries, e.itemHash = t := by
  induction entries generalizing d with
  | nil => simp
  | cons e rest ih =>
    simp only [List.foldl_cons, ih, AList.mem_insert, List.mem_cons, exists_eq_or_imp]
    rw [@eq_comm _ t]
    tauto

theorem size_foldl_insert_le :
    TokenMap.size (entries.foldl (fun active entry => active.insert entry.itemHash entry) d) ≤
      TokenMap.size d + entries.length := by
  induction entries generalizing d with
  | nil => simp
  | cons e rest ih =>
    have h1 := TokenMap.size_insert_le d e.itemHash e
    have h2 := ih (d.insert e.itemHash e)
    simp only [List.foldl_cons, List.length_cons]
    omega

end Registration

namespace BlockchainScanner

variable (c : ScanConfig Key)

/-- How the dictionaries, the network's subscriptions and the loop agree with the enumerator's
log. -/
structure Bookkeeping (s : BlockchainScanner Key) : Prop where
  /-- Every entry `create_new_entries` returned is delivered, or registered and undelivered. -/
  registered : s.run.log.returned.Perm
    (s.run.log.completed.map (·.1) ++ s.inflight.map (·.context))
  /-- A subscription is keyed by its entry's token. -/
  scriptHash : ∀ sub ∈ s.inflight, sub.scriptHash = sub.context.itemHash
  /-- Every active token has an undelivered subscription. -/
  active : ∀ t ∈ s.activeSubscriptions, ∃ sub ∈ s.inflight, sub.scriptHash = t
  /-- With distinct tokens, every undelivered subscription is active. -/
  distinct : (s.run.log.returned.map (·.itemHash)).Nodup →
    ∀ sub ∈ s.inflight, sub.scriptHash ∈ s.activeSubscriptions
  /-- A result is recorded for exactly the delivered tokens. -/
  results : ∀ t, t ∈ s.results ↔ ∃ x ∈ s.run.log.completed, x.1.itemHash = t
  /-- The subscription owner is registered until the first `shutdown`. -/
  owner : s.ownerRegistered = !s.shouldExit
  /-- A scan that returned has shut down. -/
  exited : ∀ r, s.loop = .exited r → s.shouldExit = true
  /-- A scan that stopped on exhaustion had nothing outstanding and an `is_done()` enumerator. -/
  exhausted : s.loop = .exited .bip32Exhaustion →
    TokenMap.size s.activeSubscriptions = 0 ∧ s.run.enumerator.isDone c = true

theorem bookkeeping_init (e : SearchKeyEnumerator Key) : Bookkeeping c (init e) where
  registered := by simp [init, EnumeratorRun.init]
  scriptHash := by simp [init]
  active := by simp [init, AList.not_mem_empty]
  distinct := by simp [init]
  results := by simp [init, EnumeratorRun.init, AList.not_mem_empty]
  owner := rfl
  exited := by simp [init]
  exhausted := by simp [init]

namespace Bookkeeping

variable {c} {s : BlockchainScanner Key}

theorem setEvent (h : Bookkeeping c s) (b : Bool) : Bookkeeping c { s with event := b } :=
  { h with }

theorem wait (h : Bookkeeping c s) : Bookkeeping c { s with loop := .waiting } :=
  { h with
    exited := fun _ hr => by cases hr
    exhausted := fun hr => by cases hr }

theorem shutdown (h : Bookkeeping c s) : Bookkeeping c s.shutdown := by
  rw [shutdown_eq]
  refine ⟨h.registered, h.scriptHash, h.active, h.distinct, h.results, ?_, fun _ _ => rfl,
    h.exhausted⟩
  cases hx : s.shouldExit <;> simp [h.owner, hx]

theorem exit (h : Bookkeeping c s) (r : ExitReason)
    (hr : r = .bip32Exhaustion →
      TokenMap.size s.activeSubscriptions = 0 ∧ s.run.enumerator.isDone c = true) :
    Bookkeeping c { s.shutdown with loop := .exited r } :=
  have h' := h.shutdown
  ⟨h'.registered, h'.scriptHash, h'.active, h'.distinct, h'.results, h'.owner,
    fun _ _ => shutdown_shouldExit s, fun he => by simpa using hr (LoopPoint.exited.inj he)⟩

theorem fill (h : Bookkeeping c s) (hl : s.loop = .start ∨ s.loop = .waiting) :
    Bookkeeping c (s.fill c).1 where
  registered := by
    simpa [fill_inflight, wrapSearchEntry, Function.comp_def] using
      h.registered.append_right (s.fill c).2
  scriptHash sub hsub := by
    rw [fill_inflight, List.mem_append, List.mem_map] at hsub
    rcases hsub with hsub | ⟨e, -, rfl⟩
    · exact h.scriptHash sub hsub
    · rfl
  active t ht := by
    rw [fill_activeSubscriptions, mem_foldl_insert] at ht
    rw [fill_inflight]
    rcases ht with ht | ⟨e, he, rfl⟩
    · obtain ⟨sub, hsub, hk⟩ := h.active t ht
      exact ⟨sub, List.mem_append_left _ hsub, hk⟩
    · exact ⟨wrapSearchEntry e, List.mem_append_right _ (List.mem_map_of_mem _ he), rfl⟩
  distinct hd sub hsub := by
    rw [fill_activeSubscriptions, mem_foldl_insert]
    rw [fill_inflight, List.mem_append, List.mem_map] at hsub
    rcases hsub with hsub | ⟨e, he, rfl⟩
    · simp only [fill_run, EnumeratorRun.createNewEntries_returned, List.map_append] at hd
      exact .inl (h.distinct (List.nodup_append.1 hd).1 sub hsub)
    · exact .inr ⟨e, he, rfl⟩
  results := h.results
  owner := h.owner
  exited r hr := by rcases hl with hl | hl <;> simp [hl] at hr
  exhausted hr := by rcases hl with hl | hl <;> simp [hl] at hr

theorem iterate (h : Bookkeeping c s) (hl : s.loop = .start ∨ s.loop = .waiting) :
    Bookkeeping c (s.iterate c) := by
  rcases iterate_cases c s with ⟨he, -⟩ | ⟨he, -⟩ | ⟨-, ⟨he, -⟩ | ⟨he, h0, hz, hd⟩⟩ <;> rw [he]
  · exact h.exit _ fun hr => by cases hr
  · exact h.exit _ fun hr => by cases hr
  · exact (h.fill hl).wait
  · exact (h.fill hl).exit _ fun _ => ⟨by rw [fill_activeSubscriptions, h0]; exact hz, hd⟩

theorem complete (h : Bookkeeping c s) {i : Nat} {sub : SubscriptionEntry}
    (hi : s.inflight[i]? = some sub) (ho : s.ownerRegistered = true) (history : History) :
    Bookkeeping c ({ s with inflight := s.inflight.eraseIdx i }.onScriptHashResult sub history).1 := by
  have hp := perm_cons_eraseIdx hi
  have hmem : sub ∈ s.inflight := List.getElem?_mem hi
  have hkey := h.scriptHash sub hmem
  have hloop : ∀ r, s.loop ≠ .exited r := fun r hr => by simp [h.owner, h.exited r hr] at ho
  rw [onScriptHashResult_fst]
  refine ⟨?_, ?_, ?_, ?_, ?_, h.owner, fun r hr => absurd hr (hloop r),
    fun hr => absurd hr (hloop _)⟩ <;> dsimp only
  · -- registered
    simp only [EnumeratorRun.complete_returned, EnumeratorRun.complete_completed, List.map_append,
      List.map_cons, List.map_nil, List.append_assoc, List.singleton_append]
    exact h.registered.trans ((hp.map SubscriptionEntry.context).append_left _)
  · exact fun sub' hs' => h.scriptHash sub' (List.mem_of_mem_eraseIdx hs')
  · -- active
    intro t ht
    have hsplit : t ∈ s.activeSubscriptions ∧
        (sub.scriptHash ∈ s.activeSubscriptions → t ≠ sub.scriptHash) := by
      split at ht
      · exact ⟨(AList.mem_erase.1 ht).2, fun _ => (AList.mem_erase.1 ht).1⟩
      · exact ⟨ht, fun hin heq => by simp_all⟩
    obtain ⟨sub', hs', rfl⟩ := h.active t hsplit.1
    rcases List.mem_cons.1 (hp.subset hs') with rfl | hs''
    · exact absurd rfl (hsplit.2 hsplit.1)
    · exact ⟨sub', hs'', rfl⟩
  · -- distinct
    intro hd sub' hs'
    have hnd := (h.registered.map SearchEntry.itemHash).nodup_iff.1 hd
    rw [List.map_append] at hnd
    have hnd' := ((hp.map SubscriptionEntry.context).map SearchEntry.itemHash).nodup_iff.1
      (List.nodup_append.1 hnd).2.1
    rw [List.map_cons, List.map_cons, List.nodup_cons] at hnd'
    have hne : sub'.scriptHash ≠ sub.scriptHash := by
      rw [h.scriptHash sub' (List.mem_of_mem_eraseIdx hs'), hkey]
      intro heq
      exact hnd'.1 (heq ▸ List.mem_map_of_mem _ (List.mem_map_of_mem _ hs'))
    rw [if_pos (h.distinct hd sub hmem), AList.mem_erase]
    exact ⟨hne, h.distinct hd sub' (List.mem_of_mem_eraseIdx hs')⟩
  · -- results
    intro t
    rw [AList.mem_insert, h.results]
    simp only [EnumeratorRun.complete_completed, List.mem_append, List.mem_singleton, or_and_right,
      exists_or, exists_eq_left, hkey]
    rw [@eq_comm _ t, or_comm]

theorem step {a : ScanAction} {s' : BlockchainScanner Key} (h : Bookkeeping c s)
    (hs : s.step c a = some s') : Bookkeeping c s' := by
  rcases step_cases hs with ⟨b, rfl, hl⟩ | ⟨i, sub, history, hi, ho, rfl⟩ | rfl
  · exact (h.setEvent b).iterate (by rcases hl with hl | ⟨hl, -⟩ <;> simp [hl])
  · exact h.complete hi ho history
  · exact h.shutdown

end Bookkeeping

variable {c} {s s' : BlockchainScanner Key} {a : ScanAction}

theorem Reachable.bookkeeping (hr : Reachable c s) : Bookkeeping c s := by
  induction hr with
  | init _ => exact bookkeeping_init c _
  | step _ hs ih => exact ih.step hs

/-- A scan step leaves the enumerator run alone, is its `create_new_entries`, or completes one of
its returned entries. -/
theorem step_run (h : Bookkeeping c s) (hs : s.step c a = some s') :
    s'.run = s.run ∨ (∃ n, s'.run = (s.run.createNewEntries c n).1) ∨
      ∃ entry history, entry ∈ s.run.log.returned ∧ s'.run = s.run.complete entry history := by
  rcases step_cases hs with ⟨b, rfl, -⟩ | ⟨i, sub, history, hi, -, rfl⟩ | rfl
  · rcases iterate_cases c { s with event := b } with ⟨he, -⟩ | ⟨he, -⟩ | ⟨-, ⟨he, -⟩ | ⟨he, -⟩⟩ <;>
      rw [he]
    · exact .inl (shutdown_run _)
    · exact .inl (shutdown_run _)
    · exact .inr (.inl ⟨_, rfl⟩)
    · exact .inr (.inl ⟨_, shutdown_run _⟩)
  · refine .inr (.inr ⟨sub.context, history, ?_, by rw [onScriptHashResult_fst]⟩)
    exact h.registered.symm.subset
      (List.mem_append_right _ (List.mem_map_of_mem _ (List.getElem?_mem hi)))
  · exact .inl (shutdown_run s)

/-- The enumerator of every reachable scan is a reachable enumerator run. -/
theorem Reachable.run (hr : Reachable c s) : EnumeratorRun.Reachable c s.run := by
  induction hr with
  | init he => exact .init he
  | step hr hs ih =>
    rcases step_run hr.bookkeeping hs with h | ⟨n, h⟩ | ⟨entry, history, he, h⟩ <;> rw [h]
    · exact ih
    · exact .step (a := .createNewEntries n) ih rfl
    · exact .step (a := .complete entry history) ih (if_pos he)

/-- No scan step changes the frame of a path. -/
theorem step_map_frame (h : Bookkeeping c s) (hs : s.step c a = some s') :
    s'.run.enumerator.bip32Paths.map BIP32ParentPath.frame =
      s.run.enumerator.bip32Paths.map BIP32ParentPath.frame := by
  rcases step_run h hs with h' | ⟨n, h'⟩ | ⟨entry, history, -, h'⟩ <;> rw [h']
  · exact EnumeratorRun.createNewEntries_map_frame c _ _
  · exact map_frame_recordResult _ _ _

/-! ## The size of the window -/

/-- Filling asks for `MINIMUM_ACTIVE_SUBSCRIPTIONS - len(_active_subscriptions)` entries, so the
window grows past the target by less than one derivation step, and not at all once past it. -/
theorem size_fill_le (s : BlockchainScanner Key) :
    (TokenMap.size (s.fill c).1.activeSubscriptions : Int) ≤
      max (TokenMap.size s.activeSubscriptions : Int)
        (minimumActiveSubscriptions + max 0 ((maxScriptTypes s.run.enumerator.bip32Paths : Int) - 1)) := by
  have hle := size_foldl_insert_le (s.fill c).2 s.activeSubscriptions
  rw [← fill_activeSubscriptions] at hle
  by_cases hn : minimumActiveSubscriptions - (TokenMap.size s.activeSubscriptions : Int) ≤ 0
  · rw [fill_snd, SearchKeyEnumerator.createNewEntries_of_nonpos c _ _ hn] at hle
    simp only [List.length_nil, Nat.add_zero] at hle
    omega
  · have hlen := SearchKeyEnumerator.length_createNewEntries_le c s.run.enumerator
      (minimumActiveSubscriptions - TokenMap.size s.activeSubscriptions)
    rw [← fill_snd] at hlen
    omega

theorem size_step_le (hs : s.step c a = some s') :
    (TokenMap.size s'.activeSubscriptions : Int) ≤
      max (TokenMap.size s.activeSubscriptions : Int)
        (minimumActiveSubscriptions + max 0 ((maxScriptTypes s.run.enumerator.bip32Paths : Int) - 1)) := by
  rcases step_cases hs with ⟨b, rfl, -⟩ | ⟨i, sub, history, -, -, rfl⟩ | rfl
  · rcases iterate_cases c { s with event := b } with ⟨he, -⟩ | ⟨he, -⟩ | ⟨-, ⟨he, -⟩ | ⟨he, -⟩⟩ <;>
      rw [he]
    · simp
    · simp
    · exact size_fill_le { s with event := b }
    · simpa using size_fill_le { s with event := b }
  · rw [onScriptHashResult_fst]
    dsimp only
    split
    case isTrue hin => have := TokenMap.size_erase _ hin; omega
    case isFalse => omega
  · simp

/-! ## A sample scan -/

/-- The sample enumerator's scan after its first stretch: the explicit item and the four entries
of children `0` and `1` are registered, and the loop waits. -/
def sampleScan : BlockchainScanner Nat := (init EnumeratorRun.sampleEnumerator).iterate
  EnumeratorRun.sampleConfig

theorem sampleScan_reachable : Reachable EnumeratorRun.sampleConfig sampleScan :=
  .step (a := .resume) (.init EnumeratorRun.sampleEnumerator_fresh) rfl

/-! ## Main results -/

theorem active_subscriptions_le (hr : Reachable c s) :
    (TokenMap.size s.activeSubscriptions : Int) ≤
      minimumActiveSubscriptions + max 0 ((maxScriptTypes s.run.enumerator.bip32Paths : Int) - 1) := by
  induction hr with
  | @init e _ =>
    have h0 : TokenMap.size (init e).activeSubscriptions = 0 := rfl
    rw [h0, minimumActiveSubscriptions]
    omega
  | step hr hs ih =>
    rw [maxScriptTypes_eq_of_map_frame (step_map_frame hr.bookkeeping hs)]
    have := size_step_le hs
    omega

theorem sampleScan_active_subscriptions_le :
    Reachable EnumeratorRun.sampleConfig sampleScan ∧
    (TokenMap.size sampleScan.activeSubscriptions : Int) ≤
      minimumActiveSubscriptions +
        max 0 ((maxScriptTypes sampleScan.run.enumerator.bip32Paths : Int) - 1) :=
  ⟨sampleScan_reachable, active_subscriptions_le sampleScan_reachable⟩

theorem distinct_tokens_resolved_once (hr : Reachable c s)
    (hd : (s.run.log.returned.map (·.itemHash)).Nodup) :
    (∀ (i : Nat) (sub : SubscriptionEntry) (history : History), s.inflight[i]? = some sub →
      sub.scriptHash ∉ s.results ∧
      ({ s with inflight := s.inflight.eraseIdx i }.onScriptHashResult sub history).2 =
        .subscriptionStale) ∧
    TokenMap.size s.activeSubscriptions + s.run.log.completed.length =
      s.run.log.returned.length := by
  have h := hr.bookkeeping
  have hnd := (h.registered.map SearchEntry.itemHash).nodup_iff.1 hd
  rw [List.map_append, List.nodup_append] at hnd
  obtain ⟨-, hinf, hdisj⟩ := hnd
  have hkeys : s.inflight.map (·.scriptHash) = (s.inflight.map (·.context)).map (·.itemHash) := by
    rw [List.map_map]
    exact List.map_congr_left fun sub hsub => h.scriptHash sub hsub
  refine ⟨fun i sub history hi => ⟨?_, ?_⟩, ?_⟩
  · -- the token of an undelivered subscription has no result yet
    have hmem := List.getElem?_mem hi
    rw [h.results]
    rintro ⟨x, hx, hxt⟩
    refine hdisj (List.mem_map_of_mem _ (List.mem_map_of_mem _ hx)) ?_
    rw [hxt, ← hkeys]
    exact List.mem_map_of_mem _ hmem
  · rw [onScriptHashResult_snd, if_pos (h.distinct hd sub (List.getElem?_mem hi))]
  · -- the window holds exactly the undelivered tokens
    have hperm : s.activeSubscriptions.keys.Perm (s.inflight.map (·.scriptHash)) := by
      refine (List.perm_ext_iff_of_nodup s.activeSubscriptions.keys_nodup (hkeys ▸ hinf)).2
        fun t => ?_
      rw [← AList.mem_keys, List.mem_map]
      constructor
      · exact h.active t
      · rintro ⟨sub, hsub, rfl⟩
        exact h.distinct hd sub hsub
    have hlen := h.registered.length_eq
    simp only [List.length_append, List.length_map] at hlen
    rw [TokenMap.size, hperm.length_eq, List.length_map]
    omega

theorem sampleScan_distinct_tokens_resolved_once :
    Reachable EnumeratorRun.sampleConfig sampleScan ∧
    (sampleScan.run.log.returned.map (·.itemHash)).Nodup ∧
    (∀ (i : Nat) (sub : SubscriptionEntry) (history : History), sampleScan.inflight[i]? = some sub →
      sub.scriptHash ∉ sampleScan.results ∧
      ({ sampleScan with inflight := sampleScan.inflight.eraseIdx i }.onScriptHashResult sub
        history).2 = .subscriptionStale) ∧
    TokenMap.size sampleScan.activeSubscriptions + sampleScan.run.log.completed.length =
      sampleScan.run.log.returned.length :=
  have hd : (sampleScan.run.log.returned.map (·.itemHash)).Nodup := by decide
  ⟨sampleScan_reachable, hd, distinct_tokens_resolved_once sampleScan_reachable hd⟩

/-- Two explicit items with one token, as `add_explicit_item` allows. -/
def twinEnumerator : SearchKeyEnumerator Nat :=
  ⟨[SearchKeyEnumerator.explicitEntry 1 .P2PKH [9], SearchKeyEnumerator.explicitEntry 2 .P2PKH [9]],
    []⟩

/-- The scan of the twins after its first stretch and the delivery of the first twin. -/
def twinScan : BlockchainScanner Nat :=
  ((init twinEnumerator).runActions EnumeratorRun.sampleConfig [.resume, .complete 0 []]).getD
    (init twinEnumerator)

theorem twin_tokens_key_error :
    Reachable EnumeratorRun.sampleConfig twinScan ∧
    TokenMap.size twinScan.activeSubscriptions + twinScan.run.log.completed.length ≠
      twinScan.run.log.returned.length ∧
    twinScan.inflight[0]? = some (wrapSearchEntry (SearchKeyEnumerator.explicitEntry 2 .P2PKH [9])) ∧
    twinScan.ownerRegistered = true ∧ [9] ∈ twinScan.results ∧
    ({ twinScan with inflight := twinScan.inflight.eraseIdx 0 }.onScriptHashResult
      (wrapSearchEntry (SearchKeyEnumerator.explicitEntry 2 .P2PKH [9])) []).2 = .keyError :=
  ⟨Reachable.runActions _ (.init (e := twinEnumerator) ⟨by decide, by decide⟩)
      (show (init twinEnumerator).runActions _ [.resume, .complete 0 []] = some twinScan from rfl),
    by decide, by decide, by decide,
    by decide, by decide⟩

end BlockchainScanner

end ElectrumSV
