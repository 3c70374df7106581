import ElectrumSV.Scanner.Basic

/-!
# The search key enumerator

`SearchKeyEnumerator` hands out candidate lookups on demand: the pending explicit entries first,
oldest first, then child indices of each registered BIP32 path in turn, a whole derivation step
(one entry per script type) at a time, while the path's gap-limit budget
(`_get_bip32_path_count`) is positive.

Each iteration of the `while` loop of `_obtain_entries_from_bip32_path` lowers the budget by
exactly one (`getBip32PathCount_advance`), so the loop runs at most `max 0 budget` times; the model
runs it on that much fuel, and `obtainEntriesLoop_fuel` shows that more fuel changes nothing.

The main results are the spec lemmas of the three enumeration functions:

* `obtainEntriesFromBip32Path_spec`: one call advances the path by some `k` whole steps, returns
  the entries of indices `last_index + 1, …, last_index + k`, and stops exactly when the candidate
  count or the budget runs out;
* `obtainAnyBip32Entries_path`, `length_obtainAnyBip32Entries_le`,
  `obtainAnyBip32Entries_exhausted`: the same, path by path, for a whole sweep;
* `createNewEntries_pending_eq_nil`, `length_createNewEntries_le`, `createNewEntries_exhausted`.
-/

namespace ElectrumSV

variable {Key : Type}

/-- The enumerator's state: the pending explicit entries and the registered paths. The item
hasher and the settings are in the `ScanConfig`. -/
structure SearchKeyEnumerator (Key : Type) where
  pendingSubscriptions : List SearchEntry
  bip32Paths : List (BIP32ParentPath Key)
  deriving DecidableEq, Repr

section Operations

variable (c : ScanConfig Key)

/-- `_get_bip32_path_count`: how many keys the path may still examine under its gap limit. -/
def getBip32PathCount (parentPath : BIP32ParentPath Key) : Int :=
  let gapLimit := c.gapLimits parentPath.subpath
  let keyCount := parentPath.lastIndex + 1
  if parentPath.highestUsedIndex > -1 then
    gapLimit - (parentPath.lastIndex - parentPath.highestUsedIndex)
  else gapLimit - keyCount

/-- The entry of `_obtain_entries_from_bip32_path` for one script type at child index
`currentIndex` of the path at position `ix`. The item hasher is called without a threshold, so
with its default `threshold=1`. -/
def bip32Entry (ix : Nat) (parentPath : BIP32ParentPath Key) (currentIndex : Int)
    (scriptType : ScriptType) : SearchEntry where
  kind := .BIP32
  keyinstanceId := none
  scriptType := scriptType
  itemHash := c.getItemHashForPublicKeys scriptType
    (parentPath.parentPublicKeys.map (c.childSafe · currentIndex)) 1
  parentPath := some ix
  parentIndex := currentIndex

/-- The entries of one derivation step at `currentIndex`: one per script type. -/
def stepEntries (ix : Nat) (parentPath : BIP32ParentPath Key) (currentIndex : Int) :
    List SearchEntry :=
  parentPath.scriptTypes.map (bip32Entry c ix parentPath currentIndex)

/-- The `while` loop of `_obtain_entries_from_bip32_path` for the path at position `ix`. -/
def obtainEntriesLoop (ix : Nat) :
    Nat → Int → BIP32ParentPath Key → BIP32ParentPath Key × List SearchEntry
  | 0, _, parentPath => (parentPath, [])
  | fuel + 1, maximumCandidates, parentPath =>
    if 0 < maximumCandidates ∧ 0 < getBip32PathCount c parentPath then
      let currentIndex := parentPath.lastIndex + 1
      let rest := obtainEntriesLoop ix fuel (maximumCandidates - parentPath.scriptTypes.length)
        { parentPath with lastIndex := currentIndex }
      (rest.1, stepEntries c ix parentPath currentIndex ++ rest.2)
    else (parentPath, [])

/-- `_obtain_entries_from_bip32_path`, with the loop's own bound on its iterations as fuel. -/
def obtainEntriesFromBip32Path (ix : Nat) (maximumCandidates : Int)
    (parentPath : BIP32ParentPath Key) : BIP32ParentPath Key × List SearchEntry :=
  obtainEntriesLoop c ix (getBip32PathCount c parentPath).toNat maximumCandidates parentPath

/-- `_obtain_any_bip32_entries`: the `while` loop over the paths from position `ix` on. -/
def obtainAnyBip32Entries (maximumCandidates : Int) (ix : Nat) :
    List (BIP32ParentPath Key) → List (BIP32ParentPath Key) × List SearchEntry
  | [] => ([], [])
  | parentPath :: rest =>
    if 0 < maximumCandidates then
      let candidates := obtainEntriesFromBip32Path c ix maximumCandidates parentPath
      let others := obtainAnyBip32Entries (maximumCandidates - candidates.2.length) (ix + 1) rest
      (candidates.1 :: others.1, candidates.2 ++ others.2)
    else (parentPath :: rest, [])

namespace SearchKeyEnumerator

/-- `add_bip32_subpath`. -/
def addBip32Subpath (e : SearchKeyEnumerator Key) (subpath : DerivationPath) (threshold : Int)
    (masterPublicKeys : List Key) (scriptTypes : List ScriptType) :
    SearchKeyEnumerator Key × BIP32ParentPath Key :=
  let data := BIP32ParentPath.create c subpath threshold masterPublicKeys scriptTypes
  ({ e with bip32Paths := e.bip32Paths ++ [data] }, data)

/-- The entry `add_explicit_item` appends: `SearchEntry(EXPLICIT, keyinstance_id, script_type,
item_hash)`. -/
def explicitEntry (keyinstanceId : Int) (scriptType : ScriptType) (itemHash : Bytes) :
    SearchEntry where
  kind := .EXPLICIT
  keyinstanceId := some keyinstanceId
  scriptType := scriptType
  itemHash := itemHash

/-- `add_explicit_item`. -/
def addExplicitItem (e : SearchKeyEnumerator Key) (keyinstanceId : Int) (scriptType : ScriptType)
    (itemHash : Bytes) : SearchKeyEnumerator Key :=
  { e with pendingSubscriptions :=
      e.pendingSubscriptions ++ [explicitEntry keyinstanceId scriptType itemHash] }

section Fields

variable (e : SearchKeyEnumerator Key) (keyinstanceId : Int) (scriptType : ScriptType)
  (itemHash : Bytes) (subpath : DerivationPath) (threshold : Int) (masterPublicKeys : List Key)
  (scriptTypes : List ScriptType)

@[simp] theorem addExplicitItem_pendingSubscriptions :
    (e.addExplicitItem keyinstanceId scriptType itemHash).pendingSubscriptions =
      e.pendingSubscriptions ++ [explicitEntry keyinstanceId scriptType itemHash] := rfl

@[simp] theorem addExplicitItem_bip32Paths :
    (e.addExplicitItem keyinstanceId scriptType itemHash).bip32Paths = e.bip32Paths := rfl

@[simp] theorem addBip32Subpath_pendingSubscriptions :
    (e.addBip32Subpath c subpath threshold masterPublicKeys scriptTypes).1.pendingSubscriptions =
      e.pendingSubscriptions := rfl

@[simp] theorem addBip32Subpath_bip32Paths :
    (e.addBip32Subpath c subpath threshold masterPublicKeys scriptTypes).1.bip32Paths =
      e.bip32Paths ++ [BIP32ParentPath.create c subpath threshold masterPublicKeys scriptTypes] :=
  rfl

@[simp] theorem explicitEntry_kind :
    (explicitEntry keyinstanceId scriptType itemHash).kind = .EXPLICIT := rfl

@[simp] theorem explicitEntry_parentPath :
    (explicitEntry keyinstanceId scriptType itemHash).parentPath = none := rfl

end Fields

/-- `has_sources`. -/
def hasSources (e : SearchKeyEnumerator Key) : Bool :=
  0 < e.bip32Paths.length || 0 < e.pendingSubscriptions.length

/-- `is_done`: no pending entry, and every path's budget is exactly zero. -/
def isDone (e : SearchKeyEnumerator Key) : Bool :=
  e.pendingSubscriptions.length == 0 && e.bip32Paths.all fun pp => getBip32PathCount c pp == 0

/-- How many pending entries `create_new_entries` takes: `min(required_entries, len(pending))`
when both are positive, and none otherwise. -/
def howMany (e : SearchKeyEnumerator Key) (requiredEntries : Int) : Int :=
  if 0 < requiredEntries ∧ 0 < e.pendingSubscriptions.length then
    min requiredEntries e.pendingSubscriptions.length
  else 0

/-- `create_new_entries`: pending entries first, then candidates of the paths. -/
def createNewEntries (e : SearchKeyEnumerator Key) (requiredEntries : Int) :
    SearchKeyEnumerator Key × List SearchEntry :=
  let taken := howMany e requiredEntries
  let candidates := obtainAnyBip32Entries c (requiredEntries - taken) 0 e.bip32Paths
  (⟨e.pendingSubscriptions.drop taken.toNat, candidates.1⟩,
    e.pendingSubscriptions.take taken.toNat ++ candidates.2)

end SearchKeyEnumerator

end Operations

/-! ## Derivation steps -/

namespace BIP32ParentPath

/-- The path after `k` more derivation steps. -/
def advance (pp : BIP32ParentPath Key) (k : Nat) : BIP32ParentPath Key :=
  { pp with lastIndex := pp.lastIndex + k }

variable (pp : BIP32ParentPath Key) (k : Nat)

@[simp] theorem advance_lastIndex : (pp.advance k).lastIndex = pp.lastIndex + k := rfl
@[simp] theorem advance_highestUsedIndex : (pp.advance k).highestUsedIndex = pp.highestUsedIndex :=
  rfl
@[simp] theorem advance_subpath : (pp.advance k).subpath = pp.subpath := rfl
@[simp] theorem advance_scriptTypes : (pp.advance k).scriptTypes = pp.scriptTypes := rfl
@[simp] theorem advance_parentPublicKeys : (pp.advance k).parentPublicKeys = pp.parentPublicKeys :=
  rfl

@[simp] theorem advance_zero : pp.advance 0 = pp := by simp [advance]

theorem advance_advance (a b : Nat) : (pp.advance a).advance b = pp.advance (a + b) := by
  simp only [advance, Nat.cast_add, add_assoc]

theorem update_lastIndex_succ : { pp with lastIndex := pp.lastIndex + 1 } = pp.advance 1 := by
  simp [advance]

/-- The path as configured, without its progress counters; a scan changes only the counters. -/
def frame : BIP32ParentPath Key :=
  { pp with lastIndex := -1, resultCount := 0, highestUsedIndex := -1 }

@[simp] theorem frame_subpath : pp.frame.subpath = pp.subpath := rfl
@[simp] theorem frame_scriptTypes : pp.frame.scriptTypes = pp.scriptTypes := rfl
@[simp] theorem frame_parentPublicKeys : pp.frame.parentPublicKeys = pp.parentPublicKeys := rfl
@[simp] theorem frame_advance : (pp.advance k).frame = pp.frame := rfl

end BIP32ParentPath

variable (c : ScanConfig Key)

theorem getBip32PathCount_advance (pp : BIP32ParentPath Key) (k : Nat) :
    getBip32PathCount c (pp.advance k) = getBip32PathCount c pp - k := by
  simp only [getBip32PathCount, BIP32ParentPath.advance_subpath, BIP32ParentPath.advance_lastIndex,
    BIP32ParentPath.advance_highestUsedIndex]
  split <;> omega

/-- Both branches of `_get_bip32_path_count` are `gap_limit - (last_index - highest_used_index)`
once `highest_used_index ≥ -1`. -/
theorem getBip32PathCount_eq (pp : BIP32ParentPath Key) (h : -1 ≤ pp.highestUsedIndex) :
    getBip32PathCount c pp = c.gapLimits pp.subpath - (pp.lastIndex - pp.highestUsedIndex) := by
  simp only [getBip32PathCount]
  split <;> omega

@[simp] theorem stepEntries_advance (ix : Nat) (pp : BIP32ParentPath Key) (k : Nat) (i : Int) :
    stepEntries c ix (pp.advance k) i = stepEntries c ix pp i := rfl

/-- The entries of the derivation steps at indices `lo, lo + 1, …, lo + n - 1`. -/
def entriesBetween (ix : Nat) (pp : BIP32ParentPath Key) (lo : Int) (n : Nat) : List SearchEntry :=
  (List.range n).flatMap fun j => stepEntries c ix pp (lo + j)

section EntriesBetween

variable (ix : Nat) (pp : BIP32ParentPath Key)

@[simp] theorem entriesBetween_zero (lo : Int) : entriesBetween c ix pp lo 0 = [] := rfl

theorem entriesBetween_succ (lo : Int) (n : Nat) :
    entriesBetween c ix pp lo (n + 1) = stepEntries c ix pp lo ++ entriesBetween c ix pp (lo + 1) n := by
  simp only [entriesBetween, List.range_succ_eq_map, List.flatMap_cons, List.flatMap_map]
  congr 1
  · simp
  · congr 1; funext j; congr 1; push_cast; ring

theorem entriesBetween_add (lo : Int) (a b : Nat) :
    entriesBetween c ix pp lo (a + b) =
      entriesBetween c ix pp lo a ++ entriesBetween c ix pp (lo + a) b := by
  simp only [entriesBetween, List.range_add, List.flatMap_append, List.flatMap_map]
  congr 2; funext j; congr 1; push_cast; ring

@[simp] theorem entriesBetween_advance (k : Nat) :
    entriesBetween c ix (pp.advance k) = entriesBetween c ix pp := rfl

@[simp] theorem length_stepEntries (i : Int) :
    (stepEntries c ix pp i).length = pp.scriptTypes.length := by
  simp [stepEntries]

@[simp] theorem length_entriesBetween (lo : Int) (n : Nat) :
    (entriesBetween c ix pp lo n).length = n * pp.scriptTypes.length := by
  induction n generalizing lo with
  | zero => simp
  | succ n ih => rw [entriesBetween_succ, List.length_append, ih]; simp [Nat.succ_mul, Nat.add_comm]

theorem mem_entriesBetween {lo : Int} {n : Nat} {e : SearchEntry} :
    e ∈ entriesBetween c ix pp lo n ↔
      ∃ j < n, e ∈ stepEntries c ix pp (lo + j) := by
  simp [entriesBetween]

theorem mem_stepEntries {i : Int} {e : SearchEntry} :
    e ∈ stepEntries c ix pp i ↔ ∃ st ∈ pp.scriptTypes, bip32Entry c ix pp i st = e := by
  simp [stepEntries]

end EntriesBetween

/-! ## One path -/

/-- What the loop of `_obtain_entries_from_bip32_path` does: some `k` whole derivation steps, each
entered with candidates wanted and budget left, after which one of the two has run out (unless
the fuel did). -/
theorem obtainEntriesLoop_spec (ix : Nat) :
    ∀ (fuel : Nat) (m : Int) (pp : BIP32ParentPath Key), ∃ k : Nat,
      obtainEntriesLoop c ix fuel m pp =
        (pp.advance k, entriesBetween c ix pp (pp.lastIndex + 1) k) ∧ k ≤ fuel ∧
      (∀ j : Nat, j < k →
        0 < m - j * pp.scriptTypes.length ∧ 0 < getBip32PathCount c pp - j) ∧
      (k < fuel → m - k * pp.scriptTypes.length ≤ 0 ∨ getBip32PathCount c pp - k ≤ 0)
  | 0, m, pp => ⟨0, by simp [obtainEntriesLoop]⟩
  | fuel + 1, m, pp => by
    simp only [obtainEntriesLoop]
    split
    case isTrue hguard =>
      obtain ⟨k, hrun, hk, hsteps, hstop⟩ :=
        obtainEntriesLoop_spec ix fuel (m - pp.scriptTypes.length) (pp.advance 1)
      refine ⟨k + 1, ?_, by omega, ?_, ?_⟩
      · rw [BIP32ParentPath.update_lastIndex_succ, hrun, BIP32ParentPath.advance_advance,
          entriesBetween_succ]
        simp [Nat.add_comm, add_assoc]
      · intro j hj
        rcases j with _ | j
        · simpa using hguard
        · have := hsteps j (by omega)
          simp only [BIP32ParentPath.advance_scriptTypes, getBip32PathCount_advance] at this
          push_cast at this ⊢
          constructor <;> linarith [this.1, this.2]
      · intro hlt
        have := hstop (by omega)
        simp only [BIP32ParentPath.advance_scriptTypes, getBip32PathCount_advance] at this
        push_cast at this ⊢
        rcases this with h | h
        · left; linarith
        · right; linarith
    case isFalse hguard =>
      refine ⟨0, by simp, by omega, by simp, fun _ => ?_⟩
      simp only [not_and_or, not_lt] at hguard
      simpa using hguard

/-- More fuel than the budget changes nothing: the loop stops on its own guard first. -/
theorem obtainEntriesLoop_succ (ix : Nat) :
    ∀ (fuel : Nat) (m : Int) (pp : BIP32ParentPath Key),
      (getBip32PathCount c pp).toNat ≤ fuel →
      obtainEntriesLoop c ix (fuel + 1) m pp = obtainEntriesLoop c ix fuel m pp
  | 0, m, pp, h => by
    have : ¬(0 < m ∧ 0 < getBip32PathCount c pp) := by omega
    simp only [obtainEntriesLoop, if_neg this]
  | fuel + 1, m, pp, h => by
    have hnext : (getBip32PathCount c (pp.advance 1)).toNat ≤ fuel := by
      rw [getBip32PathCount_advance]; omega
    conv_lhs => rw [obtainEntriesLoop.eq_2]
    conv_rhs => rw [obtainEntriesLoop.eq_2]
    simp only [BIP32ParentPath.update_lastIndex_succ, obtainEntriesLoop_succ ix fuel _ _ hnext]

theorem obtainEntriesLoop_fuel (ix fuel : Nat) (m : Int) (pp : BIP32ParentPath Key)
    (h : (getBip32PathCount c pp).toNat ≤ fuel) :
    obtainEntriesLoop c ix fuel m pp = obtainEntriesFromBip32Path c ix m pp := by
  obtain ⟨d, rfl⟩ := Nat.exists_eq_add_of_le h
  induction d with
  | zero => rfl
  | succ d ih => rw [← Nat.add_assoc, obtainEntriesLoop_succ c ix _ m pp (by omega), ih (by omega)]

/-- The spec of `_obtain_entries_from_bip32_path`: `k` whole steps, each entered with candidates
wanted and budget left, after which one of the two has run out. -/
theorem obtainEntriesFromBip32Path_spec (ix : Nat) (m : Int) (pp : BIP32ParentPath Key) :
    ∃ k : Nat, obtainEntriesFromBip32Path c ix m pp =
        (pp.advance k, entriesBetween c ix pp (pp.lastIndex + 1) k) ∧
      (∀ j : Nat, j < k →
        0 < m - j * pp.scriptTypes.length ∧ 0 < getBip32PathCount c pp - j) ∧
      (m - k * pp.scriptTypes.length ≤ 0 ∨ getBip32PathCount c pp - k ≤ 0) := by
  obtain ⟨k, hrun, hk, hsteps, hstop⟩ :=
    obtainEntriesLoop_spec c ix (getBip32PathCount c pp).toNat m pp
  refine ⟨k, hrun, hsteps, ?_⟩
  rcases Nat.lt_or_ge k (getBip32PathCount c pp).toNat with h | h
  · exact hstop h
  · have := Int.self_le_toNat (getBip32PathCount c pp)
    right; omega

/-- A call takes no more steps than the budget allows. -/
theorem steps_le_budget {m : Int} {pp : BIP32ParentPath Key} {k : Nat}
    (hsteps : ∀ j : Nat, j < k → 0 < m - j * pp.scriptTypes.length ∧ 0 < getBip32PathCount c pp - j)
    (hk : 0 < k) : (k : Int) ≤ getBip32PathCount c pp := by
  have := (hsteps (k - 1) (by omega)).2
  have : ((k - 1 : Nat) : Int) = k - 1 := by omega
  omega

/-- A call overshoots the candidates wanted by less than one step. -/
theorem steps_overshoot {m : Int} {pp : BIP32ParentPath Key} {k : Nat}
    (hsteps : ∀ j : Nat, j < k → 0 < m - j * pp.scriptTypes.length ∧ 0 < getBip32PathCount c pp - j)
    (hk : 0 < k) : (k * pp.scriptTypes.length : Int) < m + pp.scriptTypes.length := by
  have h := (hsteps (k - 1) (by omega)).1
  rw [Nat.cast_sub hk, Nat.cast_one, sub_mul, one_mul] at h
  linarith

/-! ## A sweep over the paths -/

/-- The largest number of script types of any path (`0` if there is none). -/
def maxScriptTypes (paths : List (BIP32ParentPath Key)) : Nat :=
  (paths.map fun pp => pp.scriptTypes.length).foldr max 0

theorem le_maxScriptTypes {paths : List (BIP32ParentPath Key)} {pp : BIP32ParentPath Key}
    (h : pp ∈ paths) : pp.scriptTypes.length ≤ maxScriptTypes paths := by
  induction paths with
  | nil => simp at h
  | cons q rest ih =>
    simp only [maxScriptTypes, List.map_cons, List.foldr_cons] at ih ⊢
    rcases List.mem_cons.1 h with rfl | h
    · exact le_max_left _ _
    · exact le_trans (ih h) (le_max_right _ _)

theorem parentPath_of_mem_entriesBetween {ix : Nat} {pp : BIP32ParentPath Key} {lo : Int} {n : Nat}
    {e : SearchEntry} (h : e ∈ entriesBetween c ix pp lo n) :
    e.kind = .BIP32 ∧ e.parentPath = some ix := by
  obtain ⟨j, -, he⟩ := (mem_entriesBetween c ix pp).1 h
  obtain ⟨st, -, rfl⟩ := (mem_stepEntries c ix pp).1 he
  exact ⟨rfl, rfl⟩

theorem obtainAnyBip32Entries_of_nonpos {m : Int} (hm : m ≤ 0) (ix : Nat)
    (paths : List (BIP32ParentPath Key)) : obtainAnyBip32Entries c m ix paths = (paths, []) := by
  cases paths <;> simp [obtainAnyBip32Entries, not_lt.2 hm]

@[simp] theorem length_obtainAnyBip32Entries_fst (m : Int) (ix : Nat)
    (paths : List (BIP32ParentPath Key)) :
    (obtainAnyBip32Entries c m ix paths).1.length = paths.length := by
  induction paths generalizing m ix with
  | nil => rfl
  | cons pp rest ih => simp only [obtainAnyBip32Entries]; split <;> simp [ih]

theorem mem_obtainAnyBip32Entries {m : Int} {ix : Nat} {paths : List (BIP32ParentPath Key)}
    {e : SearchEntry} (h : e ∈ (obtainAnyBip32Entries c m ix paths).2) :
    e.kind = .BIP32 ∧ ∃ j < paths.length, e.parentPath = some (ix + j) := by
  induction paths generalizing m ix with
  | nil => simp [obtainAnyBip32Entries] at h
  | cons pp rest ih =>
    simp only [obtainAnyBip32Entries] at h
    split at h
    · obtain ⟨k, hrun, -⟩ := obtainEntriesFromBip32Path_spec c ix m pp
      rw [hrun] at h
      rcases List.mem_append.1 h with h | h
      · exact ⟨(parentPath_of_mem_entriesBetween c h).1, 0, by simp,
          (parentPath_of_mem_entriesBetween c h).2⟩
      · obtain ⟨hk, j, hj, he⟩ := ih h
        exact ⟨hk, j + 1, by simpa using hj, by rw [he]; congr 1; omega⟩
    · simp at h

/-- The sweep advances the path at position `j` by some `k` whole steps, within its budget, and
returns for it exactly the entries of those steps. -/
theorem obtainAnyBip32Entries_path (m : Int) (ix : Nat) (paths : List (BIP32ParentPath Key))
    (j : Nat) (hj : j < paths.length) :
    ∃ k : Nat, (obtainAnyBip32Entries c m ix paths).1[j]? = some (paths[j].advance k) ∧
      (0 < k → (k : Int) ≤ getBip32PathCount c paths[j]) ∧
      (obtainAnyBip32Entries c m ix paths).2.filter (fun e => e.parentPath = some (ix + j)) =
        entriesBetween c (ix + j) paths[j] (paths[j].lastIndex + 1) k := by
  induction paths generalizing m ix j with
  | nil => simp at hj
  | cons pp rest ih =>
    simp only [obtainAnyBip32Entries]
    split
    case isTrue hm =>
      obtain ⟨k, hrun, hsteps, -⟩ := obtainEntriesFromBip32Path_spec c ix m pp
      have hothers := fun e (he : e ∈ (obtainAnyBip32Entries c
          (m - (obtainEntriesFromBip32Path c ix m pp).2.length) (ix + 1) rest).2) =>
        mem_obtainAnyBip32Entries c he
      rw [hrun] at hothers ⊢
      rcases j with _ | j
      · refine ⟨k, by simp, fun hk => by simpa using steps_le_budget c hsteps hk, ?_⟩
        rw [List.filter_append, List.filter_eq_self.2, List.filter_eq_nil_iff.2, List.append_nil]
        · rfl
        · intro e he
          obtain ⟨-, j, -, hp⟩ := hothers e he
          simp only [hp, Option.some.injEq, decide_eq_true_eq]
          omega
        · intro e he
          simp [(parentPath_of_mem_entriesBetween c he).2]
      · obtain ⟨k', h1, h2, h3⟩ := ih _ (ix + 1) j (by simpa using hj)
        refine ⟨k', by simpa using h1, by simpa using h2, ?_⟩
        rw [List.filter_append, List.filter_eq_nil_iff.2, List.nil_append]
        · simpa [Nat.add_assoc, Nat.add_comm 1 j] using h3
        · intro e he
          simp [(parentPath_of_mem_entriesBetween c he).2]
    case isFalse =>
      exact ⟨0, by simp, by simp, by simp⟩

/-- A sweep changes no path's frame. -/
theorem map_frame_obtainAnyBip32Entries (m : Int) (ix : Nat) (paths : List (BIP32ParentPath Key)) :
    (obtainAnyBip32Entries c m ix paths).1.map BIP32ParentPath.frame =
      paths.map BIP32ParentPath.frame := by
  refine List.ext_getElem? fun j => ?_
  rcases Nat.lt_or_ge j paths.length with hj | hj
  · obtain ⟨k, h1, -⟩ := obtainAnyBip32Entries_path c m ix paths j hj
    rw [List.getElem?_map, List.getElem?_map, h1, List.getElem?_eq_getElem hj]
    rfl
  · rw [List.getElem?_map, List.getElem?_map, List.getElem?_eq_none (by simpa using hj),
      List.getElem?_eq_none hj]

theorem maxScriptTypes_eq_of_map_frame {p q : List (BIP32ParentPath Key)}
    (h : p.map BIP32ParentPath.frame = q.map BIP32ParentPath.frame) :
    maxScriptTypes p = maxScriptTypes q := by
  have := congrArg (List.map fun pp => pp.scriptTypes.length) h
  simp only [List.map_map, Function.comp_def, BIP32ParentPath.frame_scriptTypes] at this
  simp only [maxScriptTypes, this]

/-- A sweep returns at most the candidates wanted, plus less than one step's fan-out. -/
theorem length_obtainAnyBip32Entries_le (m : Int) (ix : Nat)
    (paths : List (BIP32ParentPath Key)) :
    ((obtainAnyBip32Entries c m ix paths).2.length : Int) ≤
      max m 0 + max 0 ((maxScriptTypes paths : Int) - 1) := by
  induction paths generalizing m ix with
  | nil => simp [obtainAnyBip32Entries]; omega
  | cons pp rest ih =>
    simp only [obtainAnyBip32Entries]
    split
    case isFalse => simp; omega
    case isTrue hm =>
      obtain ⟨k, hrun, hsteps, -⟩ := obtainEntriesFromBip32Path_spec c ix m pp
      have hs : pp.scriptTypes.length ≤ maxScriptTypes (pp :: rest) :=
        le_maxScriptTypes (List.mem_cons_self _ _)
      have hrest : maxScriptTypes rest ≤ maxScriptTypes (pp :: rest) := by
        simp [maxScriptTypes]
      have hover : (k * pp.scriptTypes.length : Int) ≤ m + pp.scriptTypes.length - 1 := by
        rcases Nat.eq_zero_or_pos k with rfl | hk
        · simp; omega
        · have := steps_overshoot c hsteps hk; omega
      rw [hrun]
      simp only [List.length_append, length_entriesBetween, Nat.cast_add, Nat.cast_mul]
      rcases le_or_lt (m - k * pp.scriptTypes.length) 0 with hm' | hm'
      · rw [obtainAnyBip32Entries_of_nonpos c hm']
        simp only [List.length_nil, Nat.cast_zero, add_zero]
        omega
      · have := ih (m - k * pp.scriptTypes.length) (ix + 1)
        omega

/-- A sweep that returns fewer candidates than wanted leaves every path without budget. -/
theorem obtainAnyBip32Entries_exhausted (m : Int) (ix : Nat) (paths : List (BIP32ParentPath Key))
    (h : ((obtainAnyBip32Entries c m ix paths).2.length : Int) < m) :
    ∀ pp ∈ (obtainAnyBip32Entries c m ix paths).1, getBip32PathCount c pp ≤ 0 := by
  induction paths generalizing m ix with
  | nil => simp [obtainAnyBip32Entries]
  | cons pp rest ih =>
    simp only [obtainAnyBip32Entries] at h ⊢
    split at h
    case isFalse => simp at h; omega
    case isTrue hm =>
      rw [if_pos hm]
      obtain ⟨k, hrun, -, hstop⟩ := obtainEntriesFromBip32Path_spec c ix m pp
      rw [hrun] at h ⊢
      simp only [List.length_append, length_entriesBetween, Nat.cast_add, Nat.cast_mul] at h ⊢
      intro q hq
      rcases List.mem_cons.1 hq with rfl | hq
      · rw [getBip32PathCount_advance]
        rcases hstop with h' | h'
        · omega
        · exact h'
      · exact ih _ _ (by omega) q hq

/-! ## `create_new_entries` -/

namespace SearchKeyEnumerator

variable (e : SearchKeyEnumerator Key) (n : Int)

theorem howMany_spec :
    0 ≤ howMany e n ∧ howMany e n ≤ e.pendingSubscriptions.length ∧ howMany e n ≤ max n 0 ∧
      (howMany e n < e.pendingSubscriptions.length → n - howMany e n ≤ 0) := by
  unfold howMany
  split <;> omega

theorem createNewEntries_of_nonpos (h : n ≤ 0) : createNewEntries c e n = (e, []) := by
  have hm : howMany e n = 0 := by unfold howMany; split <;> omega
  simp [createNewEntries, hm, obtainAnyBip32Entries_of_nonpos c h]

/-- Candidates of the paths are handed out only once the pending entries are all taken. -/
theorem createNewEntries_pending_eq_nil
    (h : (obtainAnyBip32Entries c (n - howMany e n) 0 e.bip32Paths).2 ≠ []) :
    (createNewEntries c e n).1.pendingSubscriptions = [] := by
  obtain ⟨h0, hle, -, hlt⟩ := howMany_spec e n
  rcases lt_or_eq_of_le hle with hl | hl
  · exact absurd (by rw [obtainAnyBip32Entries_of_nonpos c (hlt hl)]) h
  · simp [createNewEntries, hl]

/-- `create_new_entries` returns at most the entries wanted, plus less than one step's fan-out. -/
theorem length_createNewEntries_le :
    ((createNewEntries c e n).2.length : Int) ≤
      max n 0 + max 0 ((maxScriptTypes e.bip32Paths : Int) - 1) := by
  obtain ⟨h0, hle, hmax, -⟩ := howMany_spec e n
  have hsweep := length_obtainAnyBip32Entries_le c (n - howMany e n) 0 e.bip32Paths
  simp only [createNewEntries, List.length_append, List.length_take, Nat.cast_add]
  have : ((min (howMany e n).toNat e.pendingSubscriptions.length : Nat) : Int) = howMany e n := by
    omega
  omega

/-- When `create_new_entries` returns fewer entries than wanted, no source could supply more. -/
theorem createNewEntries_exhausted (h : ((createNewEntries c e n).2.length : Int) < n) :
    (createNewEntries c e n).1.pendingSubscriptions = [] ∧
      ∀ pp ∈ (createNewEntries c e n).1.bip32Paths, getBip32PathCount c pp ≤ 0 := by
  obtain ⟨h0, hle, -, hlt⟩ := howMany_spec e n
  simp only [createNewEntries, List.length_append, List.length_take, Nat.cast_add] at h ⊢
  have htake : ((min (howMany e n).toNat e.pendingSubscriptions.length : Nat) : Int) =
      howMany e n := by omega
  rw [htake] at h
  have hfull : howMany e n = e.pendingSubscriptions.length := by
    by_contra hne
    have := hlt (lt_of_le_of_ne hle hne)
    omega
  exact ⟨by simp [hfull], obtainAnyBip32Entries_exhausted c _ _ _ (by omega)⟩

theorem isDone_iff :
    isDone c e = true ↔
      e.pendingSubscriptions = [] ∧ ∀ pp ∈ e.bip32Paths, getBip32PathCount c pp = 0 := by
  simp [isDone]

theorem hasSources_iff :
    e.hasSources = true ↔ e.bip32Paths ≠ [] ∨ e.pendingSubscriptions ≠ [] := by
  simp [hasSources, List.length_pos]

end SearchKeyEnumerator

end ElectrumSV
