import ElectrumSV.Scanner.Bookkeeping

/-!
# Waiting for a completion

`scan_for_usage` suspends on `await self._event.wait()`, and only `delete_active_subscription`
sets the event, from a completion of an active token. A suspended scan therefore needs an
outstanding token and a registered subscription owner to wake up.

Before any `shutdown` and with gap limits that are not negative, that holds in every reachable
state (`waiting_scan_can_wake`): a stretch that finds no new entries for an empty window leaves
every path with budget `0`, so `is_done()` ends the scan instead of waiting.

`shutdown` sets `_should_exit` and removes the subscription owner, but sets no event, and the loop
reads `_should_exit` only once the event has woken it. A `shutdown` that arrives while the scan
waits with its event unset therefore leaves a scan that no later action changes: the loop never
reaches its exit (`shutdown_while_waiting_never_exits`).
-/

namespace ElectrumSV

namespace BlockchainScanner

variable {Key : Type} {c : ScanConfig Key} {s s' : BlockchainScanner Key} {a : ScanAction}

/-- A scan step keeps the gap limits of the paths, read backwards. -/
theorem gapLimits_of_step (h : Bookkeeping c s) (hs : s.step c a = some s')
    (hg : ∀ pp ∈ s'.run.enumerator.bip32Paths, 0 ≤ c.gapLimits pp.subpath) :
    ∀ pp ∈ s.run.enumerator.bip32Paths, 0 ≤ c.gapLimits pp.subpath := by
  intro pp hp
  have : pp.frame ∈ s'.run.enumerator.bip32Paths.map BIP32ParentPath.frame := by
    rw [step_map_frame h hs]
    exact List.mem_map_of_mem _ hp
  obtain ⟨q, hq, hqf⟩ := List.mem_map.1 this
  rw [← pp.frame_subpath, ← hqf, q.frame_subpath]
  exact hg q hq

/-- With non-negative gap limits, a stretch that finds nothing for an empty window leaves an
enumerator for which `is_done()` holds. -/
theorem isDone_of_fill_nil (hi : EnumeratorRun.Inv c s.run)
    (hg : ∀ pp ∈ (s.fill c).1.run.enumerator.bip32Paths, 0 ≤ c.gapLimits pp.subpath)
    (hz : TokenMap.size s.activeSubscriptions = 0) (h0 : (s.fill c).2 = []) :
    (s.fill c).1.run.enumerator.isDone c = true := by
  have hlt : (((s.run.enumerator.createNewEntries c
      (minimumActiveSubscriptions - TokenMap.size s.activeSubscriptions)).2.length : Nat) : Int) <
      minimumActiveSubscriptions - TokenMap.size s.activeSubscriptions := by
    rw [← fill_snd, h0, hz, minimumActiveSubscriptions]
    decide
  obtain ⟨hpend, hpaths⟩ := SearchKeyEnumerator.createNewEntries_exhausted c _ _ hlt
  have hi' := hi.createNewEntries (minimumActiveSubscriptions - TokenMap.size s.activeSubscriptions)
  refine (SearchKeyEnumerator.isDone_iff c _).2 ⟨hpend, fun pp hp => ?_⟩
  obtain ⟨hlo, -, hwin⟩ := hi'.counters pp hp
  have hb := hpaths pp hp
  have hg' := hg pp hp
  rw [getBip32PathCount_eq c pp hlo] at hb ⊢
  omega

/-- Before any shutdown, with non-negative gap limits, a scan that waits with its event unset has
a token in its window. -/
theorem Reachable.waiting_active (hr : Reachable c s)
    (hg : ∀ pp ∈ s.run.enumerator.bip32Paths, 0 ≤ c.gapLimits pp.subpath)
    (hw : s.loop = .waiting) (he : s.event = false) (hx : s.shouldExit = false) :
    0 < TokenMap.size s.activeSubscriptions := by
  induction hr with
  | init _ => cases hw
  | @step s s' _ hr hs ih =>
    have hg0 := gapLimits_of_step hr.bookkeeping hs hg
    rcases step_cases hs with ⟨b, rfl, -⟩ | ⟨i, sub, history, -, -, rfl⟩ | rfl
    · rcases iterate_cases c { s with event := b } with
        ⟨he', -⟩ | ⟨he', -⟩ | ⟨-, ⟨he', hfill⟩ | ⟨he', -⟩⟩ <;> rw [he'] at hw he hg ⊢
      · cases hw
      · cases hw
      · -- the stretch filled the window and now waits
        rw [fill_activeSubscriptions]
        cases hnew : ({ s with event := b }.fill c).2 with
        | cons entry rest =>
          exact (TokenMap.size_pos_iff _).2
            ⟨entry.itemHash, (mem_foldl_insert _ _ _).2 (.inr ⟨entry, by simp, rfl⟩)⟩
        | nil =>
          rcases hfill hnew with hpos | hdone
          · exact hpos
          · by_contra hz
            have := isDone_of_fill_nil hr.run.inv hg (by simpa using hz) hnew
            simp_all
      · cases hw
    · rw [onScriptHashResult_fst] at hw he hx ⊢
      dsimp only at hw he hx ⊢
      split at he
      · cases he
      · rw [if_neg ‹_›]
        exact ih hg0 hw he hx
    · simp at hx

theorem waiting_scan_can_wake (hr : Reachable c s)
    (hg : ∀ pp ∈ s.run.enumerator.bip32Paths, 0 ≤ c.gapLimits pp.subpath)
    (hw : s.loop = .waiting) (he : s.event = false) (hx : s.shouldExit = false) :
    0 < TokenMap.size s.activeSubscriptions ∧ s.ownerRegistered = true ∧
      ∃ i, ∀ history, ∃ s', s.step c (.complete i history) = some s' ∧ s'.event = true := by
  have hb := hr.bookkeeping
  have hpos := hr.waiting_active hg hw he hx
  obtain ⟨t, ht⟩ := (TokenMap.size_pos_iff _).1 hpos
  obtain ⟨sub, hsub, rfl⟩ := hb.active t ht
  obtain ⟨i, hi, rfl⟩ := List.mem_iff_getElem.1 hsub
  have ho : s.ownerRegistered = true := by rw [hb.owner, hx]; rfl
  refine ⟨hpos, ho, i, fun history =>
    ⟨({ s with inflight := s.inflight.eraseIdx i }.onScriptHashResult s.inflight[i] history).1,
      by simp [step, List.getElem?_eq_getElem hi, ho], ?_⟩⟩
  rw [onScriptHashResult_fst]
  exact if_pos ht

theorem sampleScan_waiting_scan_can_wake :
    Reachable EnumeratorRun.sampleConfig sampleScan ∧
    (∀ pp ∈ sampleScan.run.enumerator.bip32Paths,
      0 ≤ EnumeratorRun.sampleConfig.gapLimits pp.subpath) ∧
    sampleScan.loop = .waiting ∧ sampleScan.event = false ∧ sampleScan.shouldExit = false ∧
    0 < TokenMap.size sampleScan.activeSubscriptions ∧ sampleScan.ownerRegistered = true ∧
      ∃ i, ∀ history, ∃ s', sampleScan.step EnumeratorRun.sampleConfig (.complete i history) = some s' ∧
        s'.event = true :=
  have hg : ∀ pp ∈ sampleScan.run.enumerator.bip32Paths,
      0 ≤ EnumeratorRun.sampleConfig.gapLimits pp.subpath := by decide
  have hw : sampleScan.loop = .waiting := by decide
  have he : sampleScan.event = false := by decide
  have hx : sampleScan.shouldExit = false := by decide
  ⟨sampleScan_reachable, hg, hw, he, hx, waiting_scan_can_wake sampleScan_reachable hg hw he hx⟩

/-- After a `shutdown` that arrives while the scan waits with its event unset, no action changes
the scan: a completion finds no owner, the loop stays suspended, and a second `shutdown` does
nothing. -/
theorem step_shutdown_of_waiting (hr : Reachable c s) (hw : s.loop = .waiting)
    (he : s.event = false) (hs : s.shutdown.step c a = some s') : s' = s.shutdown := by
  rcases step_cases hs with ⟨b, -, hl⟩ | ⟨i, sub, history, -, ho, -⟩ | rfl
  · simp [hw, he] at hl
  · simp [hr.bookkeeping.owner] at ho
  · exact shutdown_of_shouldExit _ (shutdown_shouldExit _)

/-- A `shutdown` that arrives while the scan waits with its event unset leaves the scan suspended
on its event after every run of actions: the loop never reaches its exit. -/
theorem shutdown_while_waiting_never_exits (hr : Reachable c s) (hw : s.loop = .waiting)
    (he : s.event = false) :
    ∀ (as : List ScanAction) (s' : BlockchainScanner Key), s.shutdown.runActions c as = some s' →
      s' = s.shutdown ∧ s'.loop = .waiting
  | [], s', hs => by
    cases hs
    exact ⟨rfl, by rw [shutdown_loop, hw]⟩
  | a :: as, s', hs => by
    simp only [runActions] at hs
    split at hs
    case h_1 s'' hstep =>
      rw [step_shutdown_of_waiting hr hw he hstep] at hs
      exact shutdown_while_waiting_never_exits hr hw he as s' hs
    case h_2 => cases hs

theorem sampleScan_shutdown_while_waiting_never_exits :
    Reachable EnumeratorRun.sampleConfig sampleScan ∧ sampleScan.loop = .waiting ∧
      sampleScan.event = false ∧
      sampleScan.shutdown.runActions EnumeratorRun.sampleConfig [.shutdown] =
        some sampleScan.shutdown ∧
      sampleScan.shutdown = sampleScan.shutdown ∧ sampleScan.shutdown.loop = .waiting :=
  have hw : sampleScan.loop = .waiting := by decide
  have he : sampleScan.event = false := by decide
  have hrun : sampleScan.shutdown.runActions EnumeratorRun.sampleConfig [.shutdown] =
      some sampleScan.shutdown := by
    simp only [runActions, step, shutdown_of_shouldExit _ (shutdown_shouldExit _)]
  ⟨sampleScan_reachable, hw, he, hrun,
    shutdown_while_waiting_never_exits sampleScan_reachable hw he [.shutdown] _ hrun⟩

end BlockchainScanner

end ElectrumSV
