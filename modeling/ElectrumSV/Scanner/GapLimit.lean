import ElectrumSV.Scanner.Bookkeeping

/-!
# Where a path's scan stops

Fix a history oracle `H` from tokens to histories. Child `i` of a path is used when the token of
some script type of that child has a non-empty history, `h(L)` is the highest used index up to
`L` (or `-1`), and the gap limit `g` of the path marks the first `L ≥ -1` with `L - h(L) = g`
(`IsGapFrontier`). The scan derives child `L + 1` only while its budget is positive, and its
`highest_used_index` never exceeds `h(last_index)`, so every gap below `last_index` stays under `g`
(`BelowFrontier`), in whatever order the completions arrive. A scan that stops on exhaustion has
completed everything it registered, so there `highest_used_index = h(last_index)` and the budget
`0` says that `last_index` is the frontier itself.

* `EnumeratorRun.Reachable.frontier`: no path passes its frontier.
* `scan_extent`: the frontier bounds `last_index` in every reachable scan, and a scan that stopped
  on exhaustion has reached it, with a result for every child and script type up to it.
-/

namespace ElectrumSV

variable {Key : Type}

section Oracle

variable (c : ScanConfig Key) (H : Bytes → History) (j : Nat) (pp : BIP32ParentPath Key)

/-- Whether some script type of child `i` of the path at position `j` has a history under `H`. -/
def usedIndex (i : Int) : Bool :=
  pp.scriptTypes.any fun st => !(H (bip32Entry c j pp i st).itemHash).isEmpty

/-- `h(n - 1)`: the highest used child index below `n`, or `-1`. -/
def highestUsedBelow : Nat → Int
  | 0 => -1
  | n + 1 => if usedIndex c H j pp n then n else highestUsedBelow n

/-- `L` is the first `L ≥ -1` at which the gap `L - h(L)` equals the gap limit. -/
def IsGapFrontier (L : Int) : Prop :=
  -1 ≤ L ∧ L - highestUsedBelow c H j pp (L + 1).toNat = c.gapLimits pp.subpath ∧
    ∀ l, -1 ≤ l → l < L → l - highestUsedBelow c H j pp (l + 1).toNat ≠ c.gapLimits pp.subpath

/-- Every gap below `last_index` is under the gap limit. -/
def BelowFrontier : Prop :=
  ∀ l, -1 ≤ l → l < pp.lastIndex →
    l - highestUsedBelow c H j pp (l + 1).toNat < c.gapLimits pp.subpath

theorem highestUsedBelow_bounds (n : Nat) :
    -1 ≤ highestUsedBelow c H j pp n ∧ highestUsedBelow c H j pp n < n := by
  induction n with
  | zero => simp [highestUsedBelow]
  | succ n ih => simp only [highestUsedBelow]; split <;> omega

theorem highestUsedBelow_mono {m n : Nat} (h : m ≤ n) :
    highestUsedBelow c H j pp m ≤ highestUsedBelow c H j pp n := by
  induction h with
  | refl => exact le_rfl
  | @step k _ ih =>
    have := (highestUsedBelow_bounds c H j pp k).2
    simp only [highestUsedBelow]
    split <;> omega

theorem le_highestUsedBelow {i n : Nat} (hi : usedIndex c H j pp i = true) (hn : i < n) :
    (i : Int) ≤ highestUsedBelow c H j pp n := by
  induction n with
  | zero => omega
  | succ n ih =>
    simp only [highestUsedBelow]
    split
    case isTrue => omega
    case isFalse hn' =>
      rcases Nat.lt_succ_iff_lt_or_eq.1 hn with h | rfl
      · exact ih h
      · exact absurd hi hn'

theorem highestUsedBelow_used (n : Nat) :
    highestUsedBelow c H j pp n = -1 ∨
      ∃ i : Nat, highestUsedBelow c H j pp n = i ∧ usedIndex c H j pp i = true := by
  induction n with
  | zero => exact .inl rfl
  | succ n ih =>
    simp only [highestUsedBelow]
    split
    case isTrue h => exact .inr ⟨n, rfl, h⟩
    case isFalse => exact ih

/-- `h` reads only the frame of the path. -/
theorem highestUsedBelow_frame (n : Nat) :
    highestUsedBelow c H j pp.frame n = highestUsedBelow c H j pp n := by
  induction n with
  | zero => rfl
  | succ n ih => simp only [highestUsedBelow, ih]; rfl

theorem BelowFrontier.of_frame {q : BIP32ParentPath Key} (h : BelowFrontier c H j pp)
    (hf : q.frame = pp.frame) (hl : q.lastIndex = pp.lastIndex) : BelowFrontier c H j q := by
  intro l hl1 hl2
  have hs : q.subpath = pp.subpath := by rw [← q.frame_subpath, hf, pp.frame_subpath]
  rw [← highestUsedBelow_frame, hf, highestUsedBelow_frame, hs]
  exact h l hl1 (hl ▸ hl2)

/-- Steps taken within the budget keep the path behind its frontier, as long as its
`highest_used_index` is at most `h(last_index)`. -/
theorem BelowFrontier.advance (h : BelowFrontier c H j pp) {k : Nat}
    (hk : 0 < k → (k : Int) ≤ getBip32PathCount c pp) (hlo : -1 ≤ pp.highestUsedIndex)
    (hui : pp.highestUsedIndex ≤ highestUsedBelow c H j pp (pp.lastIndex + 1).toNat) :
    BelowFrontier c H j (pp.advance k) := by
  intro l hl1 hl2
  rw [← highestUsedBelow_frame, pp.frame_advance, highestUsedBelow_frame, pp.advance_subpath]
  rw [pp.advance_lastIndex] at hl2
  by_cases hl : l < pp.lastIndex
  · exact h l hl1 hl
  · have hbudget := hk (by omega)
    rw [getBip32PathCount_eq c pp hlo] at hbudget
    have hmono := highestUsedBelow_mono c H j pp
      (show (pp.lastIndex + 1).toNat ≤ (l + 1).toNat by omega)
    omega

end Oracle

namespace EnumeratorRun

variable (c : ScanConfig Key) (H : Bytes → History)

/-- When every completion so far came back with the history `H` gives its token, every path is
behind its frontier. -/
def Frontier (r : EnumeratorRun Key) : Prop :=
  (∀ x ∈ r.log.completed, x.2 = H x.1.itemHash) →
    ∀ j (hj : j < r.enumerator.bip32Paths.length), BelowFrontier c H j r.enumerator.bip32Paths[j]

variable {c} {r r' : EnumeratorRun Key}

/-- Under `H`, `highest_used_index` is at most `h(last_index)`: it is a completed index with a
history. -/
theorem Inv.highestUsedIndex_le (h : Inv c r) (hH : ∀ x ∈ r.log.completed, x.2 = H x.1.itemHash)
    (j : Nat) (hj : j < r.enumerator.bip32Paths.length) :
    r.enumerator.bip32Paths[j].highestUsedIndex ≤
      highestUsedBelow c H j r.enumerator.bip32Paths[j]
        (r.enumerator.bip32Paths[j].lastIndex + 1).toNat := by
  rw [h.highest j hj, highestCompleted_le_iff]
  refine ⟨(highestUsedBelow_bounds c H j _ _).1, fun x hx _ hp hh => ?_⟩
  obtain ⟨i, hi, st, hst, hxe⟩ := h.eq_bip32Entry (h.completed x hx) hj hp
  have hused : usedIndex c H j r.enumerator.bip32Paths[j] i = true := by
    simp only [usedIndex, List.any_eq_true]
    exact ⟨st, hst, by rw [hxe, ← hH x hx]; simpa [List.isEmpty_iff] using hh⟩
  rw [← hxe]
  exact le_highestUsedBelow c H j _ hused (by omega)

theorem frontier_init {e : SearchKeyEnumerator Key} (he : e.Fresh) : Frontier c H (init e) := by
  intro _ j hj l hl1 hl2
  have hj' : j < e.bip32Paths.length := hj
  have := (he.paths _ (List.getElem_mem hj')).1
  change l < e.bip32Paths[j].lastIndex at hl2
  omega

theorem Frontier.step (hf : Frontier c H r) (h : Inv c r) {a : EnumeratorAction Key}
    (hs : r.step c a = some r') : Frontier c H r' := by
  intro hH j hj
  cases a with
  | addExplicitItem k st ih => cases hs; exact hf hH j hj
  | addBip32Subpath sp th mk sts =>
    cases hs
    simp only [SearchKeyEnumerator.addBip32Subpath_bip32Paths, List.length_append,
      List.length_singleton] at hj ⊢
    rcases Nat.lt_or_ge j r.enumerator.bip32Paths.length with hj' | hj'
    · rw [List.getElem_append_left hj']
      exact hf hH j hj'
    · intro l hl1 hl2
      simp only [List.getElem_append_right hj',
        show j - r.enumerator.bip32Paths.length = 0 by omega, List.getElem_singleton,
        BIP32ParentPath.create_lastIndex] at hl2
      omega
  | createNewEntries n =>
    cases hs
    have hj' : j < r.enumerator.bip32Paths.length := by
      simpa [SearchKeyEnumerator.createNewEntries] using hj
    obtain ⟨k, h1, h2, -⟩ := obtainAnyBip32Entries_path c (n - r.enumerator.howMany n) 0
      r.enumerator.bip32Paths j hj'
    obtain ⟨_, hq⟩ := List.getElem?_eq_some_iff.1 h1
    simp only [createNewEntries_enumerator, SearchKeyEnumerator.createNewEntries, hq]
    exact BelowFrontier.advance c H j _ (hf hH j hj') h2
      (h.counters _ (List.getElem_mem hj')).1 (h.highestUsedIndex_le H hH j hj')
  | complete entry history =>
    simp only [EnumeratorRun.step] at hs
    split at hs
    case isFalse => cases hs
    case isTrue =>
      cases hs
      have hH' : ∀ x ∈ r.log.completed, x.2 = H x.1.itemHash :=
        fun x hx => hH x (List.mem_append_left _ hx)
      have hj' : j < r.enumerator.bip32Paths.length := by simpa using hj
      refine BelowFrontier.of_frame c H j _ (hf hH' j hj') ?_ ?_ <;>
        simp only [complete_bip32Paths] <;> rw [getElem_recordResult _ _ _ j hj'] <;> split <;> rfl

theorem Reachable.frontier (hr : Reachable c r) : Frontier c H r := by
  induction hr with
  | init he => exact frontier_init H he
  | step hr hs ih => exact ih.step H hr.inv hs

end EnumeratorRun

namespace BlockchainScanner

variable {c : ScanConfig Key} {s : BlockchainScanner Key}

theorem scan_extent (hr : Reachable c s) (H : Bytes → History)
    (hH : ∀ x ∈ s.run.log.completed, x.2 = H x.1.itemHash)
    (hd : (s.run.log.returned.map (·.itemHash)).Nodup) {j : Nat} {pp : BIP32ParentPath Key}
    (hp : s.run.enumerator.bip32Paths[j]? = some pp) :
    (∀ L, IsGapFrontier c H j pp L → pp.lastIndex ≤ L) ∧
    (s.loop = .exited .bip32Exhaustion →
      IsGapFrontier c H j pp pp.lastIndex ∧
      pp.highestUsedIndex = highestUsedBelow c H j pp (pp.lastIndex + 1).toNat ∧
      ∀ i : Nat, (i : Int) ≤ pp.lastIndex → ∀ st ∈ pp.scriptTypes,
        (bip32Entry c j pp i st).itemHash ∈ s.results) := by
  obtain ⟨hj, hpp⟩ := List.getElem?_eq_some_iff.1 hp
  have hb := hr.bookkeeping
  have hi := hr.run.inv
  have hpm : pp ∈ s.run.enumerator.bip32Paths := hpp ▸ List.getElem_mem hj
  have hf : BelowFrontier c H j pp := hpp ▸ hr.run.frontier H hH j hj
  refine ⟨fun L hL => ?_, fun hx => ?_⟩
  · by_contra hlt
    exact absurd hL.2.1 (ne_of_lt (hf L hL.1 (by omega)))
  obtain ⟨hz, hdone⟩ := hb.exhausted hx
  -- with distinct tokens an empty window means that everything registered was delivered
  have hinf : s.inflight = [] := List.eq_nil_iff_forall_not_mem.2 fun sub hsub => by
    have := (TokenMap.size_pos_iff _).2 ⟨_, hb.distinct hd sub hsub⟩
    omega
  have hdel : ∀ i : Nat, (i : Int) ≤ pp.lastIndex → ∀ st ∈ pp.scriptTypes,
      ∃ y ∈ s.run.log.completed, y.1 = bip32Entry c j pp i st := fun i hil st hst => by
    subst hpp
    simpa [hinf] using hb.registered.subset (hi.bip32Entry_mem hj hil hst)
  obtain ⟨hlo, hle, -⟩ := hi.counters pp hpm
  have hbudget := ((SearchKeyEnumerator.isDone_iff c _).1 hdone).2 pp hpm
  rw [getBip32PathCount_eq c _ hlo] at hbudget
  have hui : pp.highestUsedIndex ≤ highestUsedBelow c H j pp (pp.lastIndex + 1).toNat :=
    hpp ▸ hi.highestUsedIndex_le H hH j hj
  -- every used index up to `last_index` was delivered with its history
  have hge : highestUsedBelow c H j pp (pp.lastIndex + 1).toNat ≤ pp.highestUsedIndex := by
    rcases highestUsedBelow_used c H j pp (pp.lastIndex + 1).toNat with h1 | ⟨i, h1, hu⟩
    · omega
    have hil : (i : Int) ≤ pp.lastIndex := by
      have := (highestUsedBelow_bounds c H j pp (pp.lastIndex + 1).toNat).2
      omega
    obtain ⟨st, hst, hne⟩ : ∃ st ∈ pp.scriptTypes, H (bip32Entry c j pp i st).itemHash ≠ [] := by
      simpa [usedIndex, List.isEmpty_iff] using hu
    obtain ⟨y, hy, hye⟩ := hdel i hil st hst
    have := le_highestCompleted hy (by rw [hye]; rfl) (by rw [hye]; rfl)
      (by rw [hH y hy, hye]; exact hne)
    rw [h1, ← hpp, hi.highest j hj]
    rwa [hye] at this
  refine ⟨⟨by omega, by omega, fun l hl1 hl2 => ne_of_lt (hf l hl1 hl2)⟩, by omega,
    fun i hil st hst => ?_⟩
  obtain ⟨y, hy, hye⟩ := hdel i hil st hst
  exact (hb.results _).2 ⟨y, hy, by rw [hye]⟩

/-- Only the P2PKH token of child `0` of the sample path has a history. -/
def sampleOracle (token : Bytes) : History :=
  if token = [2, 0] then [⟨"f00d", 100, none⟩] else []

/-- The sample scan to its end under `sampleOracle`: the first stretch registers children `0` and
`1`, their five deliveries make child `0` used, the second stretch registers child `2`, and after
its deliveries the third stretch exits on exhaustion. -/
def sampleScanActions : List ScanAction :=
  [.resume, .complete 0 [], .complete 0 [⟨"f00d", 100, none⟩], .complete 0 [], .complete 0 [],
    .complete 0 [], .resume, .complete 0 [], .complete 0 [], .resume]

/-- The final state of the sample scan. -/
def sampleFinalScan : BlockchainScanner Nat :=
  ((init EnumeratorRun.sampleEnumerator).runActions EnumeratorRun.sampleConfig sampleScanActions).getD
    (init EnumeratorRun.sampleEnumerator)

theorem sampleFinalScan_scan_extent :
    Reachable EnumeratorRun.sampleConfig sampleFinalScan ∧
    (∀ x ∈ sampleFinalScan.run.log.completed, x.2 = sampleOracle x.1.itemHash) ∧
    (sampleFinalScan.run.log.returned.map (·.itemHash)).Nodup ∧
    sampleFinalScan.run.enumerator.bip32Paths[0]? =
      some { BIP32ParentPath.create EnumeratorRun.sampleConfig [0] 1 [0] [.P2PKH, .P2PK] with
        lastIndex := 2, resultCount := 6, highestUsedIndex := 0 } ∧
    sampleFinalScan.loop = .exited .bip32Exhaustion ∧
    let pp : BIP32ParentPath Nat :=
      { BIP32ParentPath.create EnumeratorRun.sampleConfig [0] 1 [0] [.P2PKH, .P2PK] with
        lastIndex := 2, resultCount := 6, highestUsedIndex := 0 }
    (∀ L, IsGapFrontier EnumeratorRun.sampleConfig sampleOracle 0 pp L → pp.lastIndex ≤ L) ∧
    (sampleFinalScan.loop = .exited .bip32Exhaustion →
      IsGapFrontier EnumeratorRun.sampleConfig sampleOracle 0 pp pp.lastIndex ∧
      pp.highestUsedIndex =
        highestUsedBelow EnumeratorRun.sampleConfig sampleOracle 0 pp (pp.lastIndex + 1).toNat ∧
      ∀ i : Nat, (i : Int) ≤ pp.lastIndex → ∀ st ∈ pp.scriptTypes,
        (bip32Entry EnumeratorRun.sampleConfig 0 pp i st).itemHash ∈ sampleFinalScan.results) :=
  have hr : Reachable EnumeratorRun.sampleConfig sampleFinalScan :=
    Reachable.runActions _ (.init EnumeratorRun.sampleEnumerator_fresh)
      (show (init _).runActions _ sampleScanActions = some sampleFinalScan from rfl)
  have hH : ∀ x ∈ sampleFinalScan.run.log.completed, x.2 = sampleOracle x.1.itemHash := by decide
  have hd : (sampleFinalScan.run.log.returned.map (·.itemHash)).Nodup := by decide
  have hp : sampleFinalScan.run.enumerator.bip32Paths[0]? =
      some { BIP32ParentPath.create EnumeratorRun.sampleConfig [0] 1 [0] [.P2PKH, .P2PK] with
        lastIndex := 2, resultCount := 6, highestUsedIndex := 0 } := by decide
  ⟨hr, hH, hd, hp, by decide, scan_extent hr sampleOracle hH hd hp⟩

end BlockchainScanner

end ElectrumSV
