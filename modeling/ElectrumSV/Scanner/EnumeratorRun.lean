import ElectrumSV.Scanner.Enumerator

/-!
# Runs of the enumerator

A scan drives a `SearchKeyEnumerator` through four kinds of operation, in any interleaving:
`add_explicit_item`, `add_bip32_subpath`, `create_new_entries`, and the completion of a returned
entry, whose effect on the entry's parent path is the BIP32 branch of
`ScriptHashHandler._on_script_hash_result` (`recordResult`). An `EnumeratorRun` pairs the
enumerator with a ghost log of what was added, returned and completed; the program never reads the
log.

`EnumeratorRun.Inv` holds in every reachable run (`Reachable.inv`). Its fields say that explicit
entries leave in insertion order, that each path has handed out every derivation step up to its
`last_index` exactly once, and that the gap-limit counters stay in their window, with
`highest_used_index` the largest completed index that came back with a history.

`_obtain_entries_from_bip32_path` calls the item hasher without a threshold, so the token of every
returned entry is computed with threshold `1`, whatever the path's signing threshold
(`Inv.itemHash_eq`). For an m-of-n path with m ≥ 2 the tokens are those of another script
(`multisig_token_ignores_threshold`).
-/

namespace ElectrumSV

variable {Key : Type}

/-- The ghost history of an enumerator: entries added with `add_explicit_item`, entries returned by
`create_new_entries`, and completions with their histories, each in order. -/
structure EnumeratorLog where
  added : List SearchEntry
  returned : List SearchEntry
  completed : List (SearchEntry × History)
  deriving DecidableEq, Repr

/-- An enumerator together with its ghost log. -/
structure EnumeratorRun (Key : Type) where
  enumerator : SearchKeyEnumerator Key
  log : EnumeratorLog
  deriving DecidableEq, Repr

/-- The BIP32 branch of `_on_script_hash_result`: the entry's parent path counts the result and,
for a non-empty history, raises `highest_used_index` to the entry's index. -/
def recordResult (paths : List (BIP32ParentPath Key)) (entry : SearchEntry) (history : History) :
    List (BIP32ParentPath Key) :=
  match entry.kind, entry.parentPath with
  | .BIP32, some j =>
    paths.modify (fun pp =>
      { pp with
        resultCount := pp.resultCount + 1
        highestUsedIndex :=
          if 0 < history.length then max pp.highestUsedIndex entry.parentIndex
          else pp.highestUsedIndex }) j
  | _, _ => paths

/-- The largest child index among the completed entries of the path at position `j` that came back
with a non-empty history, or `-1` if there is none. -/
def highestCompleted (completed : List (SearchEntry × History)) (j : Nat) : Int :=
  ((completed.filter fun x => x.1.kind = .BIP32 ∧ x.1.parentPath = some j ∧ x.2 ≠ []).map
    (·.1.parentIndex)).foldl max (-1)

section RecordResult

variable (paths : List (BIP32ParentPath Key)) (entry : SearchEntry) (history : History)

@[simp] theorem length_recordResult : (recordResult paths entry history).length = paths.length := by
  unfold recordResult; split <;> simp

/-- `recordResult` changes only the two counters of the entry's own path. -/
theorem getElem_recordResult (j : Nat) (hj : j < paths.length)
    (hj' : j < (recordResult paths entry history).length) :
    (recordResult paths entry history)[j] =
      if entry.kind = .BIP32 ∧ entry.parentPath = some j then
        { paths[j] with
          resultCount := paths[j].resultCount + 1
          highestUsedIndex :=
            if 0 < history.length then max paths[j].highestUsedIndex entry.parentIndex
            else paths[j].highestUsedIndex }
      else paths[j] := by
  obtain ⟨kind, _, _, _, parentPath, _⟩ := entry
  unfold recordResult
  cases kind <;> cases parentPath <;> simp [List.getElem_modify]

/-- A completion changes no path's frame. -/
theorem map_frame_recordResult :
    (recordResult paths entry history).map BIP32ParentPath.frame =
      paths.map BIP32ParentPath.frame := by
  refine List.ext_getElem (by simp) fun j _ h2 => ?_
  simp only [List.getElem_map]
  rw [getElem_recordResult _ _ _ j (by simpa using h2)]
  split <;> rfl

end RecordResult

theorem highestCompleted_append (completed : List (SearchEntry × History)) (entry : SearchEntry)
    (history : History) (j : Nat) :
    highestCompleted (completed ++ [(entry, history)]) j =
      if entry.kind = .BIP32 ∧ entry.parentPath = some j ∧ history ≠ [] then
        max (highestCompleted completed j) entry.parentIndex
      else highestCompleted completed j := by
  unfold highestCompleted
  split <;> simp_all

theorem highestCompleted_le_iff (completed : List (SearchEntry × History)) (j : Nat) (b : Int) :
    highestCompleted completed j ≤ b ↔ -1 ≤ b ∧ ∀ x ∈ completed,
      x.1.kind = .BIP32 → x.1.parentPath = some j → x.2 ≠ [] → x.1.parentIndex ≤ b := by
  rw [highestCompleted, List.max?_le_iff (fun _ _ _ => max_le_iff) List.max?_cons']
  simp only [List.forall_mem_cons, List.forall_mem_map, List.mem_filter, decide_eq_true_eq,
    and_imp]

theorem le_highestCompleted {completed : List (SearchEntry × History)} {j : Nat}
    {x : SearchEntry × History} (hx : x ∈ completed) (hk : x.1.kind = .BIP32)
    (hp : x.1.parentPath = some j) (hh : x.2 ≠ []) :
    x.1.parentIndex ≤ highestCompleted completed j :=
  ((highestCompleted_le_iff completed j _).1 le_rfl).2 x hx hk hp hh

/-- An operation on the enumerator. -/
inductive EnumeratorAction (Key : Type)
  | addExplicitItem (keyinstanceId : Int) (scriptType : ScriptType) (itemHash : Bytes)
  | addBip32Subpath (subpath : DerivationPath) (threshold : Int) (masterPublicKeys : List Key)
      (scriptTypes : List ScriptType)
  | createNewEntries (requiredEntries : Int)
  | complete (entry : SearchEntry) (history : History)

namespace EnumeratorRun

variable (c : ScanConfig Key)

/-- `create_new_entries`, logging what it returns. -/
def createNewEntries (r : EnumeratorRun Key) (requiredEntries : Int) :
    EnumeratorRun Key × List SearchEntry :=
  let result := r.enumerator.createNewEntries c requiredEntries
  (⟨result.1, { r.log with returned := r.log.returned ++ result.2 }⟩, result.2)

/-- The completion of `entry` with `history`, logged. -/
def complete (r : EnumeratorRun Key) (entry : SearchEntry) (history : History) :
    EnumeratorRun Key :=
  ⟨{ r.enumerator with bip32Paths := recordResult r.enumerator.bip32Paths entry history },
    { r.log with completed := r.log.completed ++ [(entry, history)] }⟩

/-- One operation; a completion is enabled for returned entries only. -/
def step (r : EnumeratorRun Key) : EnumeratorAction Key → Option (EnumeratorRun Key)
  | .addExplicitItem keyinstanceId scriptType itemHash =>
    some ⟨r.enumerator.addExplicitItem keyinstanceId scriptType itemHash,
      { r.log with added :=
          r.log.added ++ [SearchKeyEnumerator.explicitEntry keyinstanceId scriptType itemHash] }⟩
  | .addBip32Subpath subpath threshold masterPublicKeys scriptTypes =>
    some ⟨(r.enumerator.addBip32Subpath c subpath threshold masterPublicKeys scriptTypes).1, r.log⟩
  | .createNewEntries requiredEntries => some (r.createNewEntries c requiredEntries).1
  | .complete entry history => if entry ∈ r.log.returned then some (r.complete entry history) else none

section Fields

variable (r : EnumeratorRun Key) (n : Int) (entry : SearchEntry) (history : History)

@[simp] theorem createNewEntries_enumerator :
    (r.createNewEntries c n).1.enumerator = (r.enumerator.createNewEntries c n).1 := rfl
@[simp] theorem createNewEntries_returned :
    (r.createNewEntries c n).1.log.returned =
      r.log.returned ++ (r.enumerator.createNewEntries c n).2 := rfl
@[simp] theorem createNewEntries_completed :
    (r.createNewEntries c n).1.log.completed = r.log.completed := rfl
@[simp] theorem createNewEntries_snd :
    (r.createNewEntries c n).2 = (r.enumerator.createNewEntries c n).2 := rfl
@[simp] theorem complete_bip32Paths :
    (r.complete entry history).enumerator.bip32Paths =
      recordResult r.enumerator.bip32Paths entry history := rfl
@[simp] theorem complete_pendingSubscriptions :
    (r.complete entry history).enumerator.pendingSubscriptions =
      r.enumerator.pendingSubscriptions := rfl
@[simp] theorem complete_returned : (r.complete entry history).log.returned = r.log.returned := rfl
@[simp] theorem complete_completed :
    (r.complete entry history).log.completed = r.log.completed ++ [(entry, history)] := rfl

/-- `create_new_entries` changes no path's frame. -/
theorem createNewEntries_map_frame :
    (r.createNewEntries c n).1.enumerator.bip32Paths.map BIP32ParentPath.frame =
      r.enumerator.bip32Paths.map BIP32ParentPath.frame :=
  map_frame_obtainAnyBip32Entries c _ _ _

end Fields

end EnumeratorRun

/-- An enumerator as configuration leaves it: pending entries explicit, every path unscanned. -/
structure SearchKeyEnumerator.Fresh (e : SearchKeyEnumerator Key) : Prop where
  pending : ∀ x ∈ e.pendingSubscriptions, x.kind = .EXPLICIT ∧ x.parentPath = none
  paths : ∀ pp ∈ e.bip32Paths, pp.lastIndex = -1 ∧ pp.highestUsedIndex = -1

/-- The run that starts a fresh enumerator, whose pending entries count as added. -/
def EnumeratorRun.init (e : SearchKeyEnumerator Key) : EnumeratorRun Key :=
  ⟨e, ⟨e.pendingSubscriptions, [], []⟩⟩

/-- The runs reachable from a fresh enumerator. -/
inductive EnumeratorRun.Reachable (c : ScanConfig Key) : EnumeratorRun Key → Prop
  | init {e : SearchKeyEnumerator Key} : e.Fresh → Reachable c (EnumeratorRun.init e)
  | step {r r' : EnumeratorRun Key} {a : EnumeratorAction Key} :
      Reachable c r → r.step c a = some r' → Reachable c r'

namespace EnumeratorRun

variable (c : ScanConfig Key)

/-- The invariant of every reachable run. -/
structure Inv (r : EnumeratorRun Key) : Prop where
  /-- Explicit entries leave in the order they were added. -/
  fifo : r.log.returned.filter (·.kind = .EXPLICIT) ++ r.enumerator.pendingSubscriptions =
    r.log.added
  /-- Pending entries are explicit and belong to no path. -/
  pending : ∀ x ∈ r.enumerator.pendingSubscriptions, x.kind = .EXPLICIT ∧ x.parentPath = none
  /-- A returned entry is explicit, or a BIP32 entry of a registered path. -/
  returned : ∀ x ∈ r.log.returned, (x.kind = .EXPLICIT ∧ x.parentPath = none) ∨
    (x.kind = .BIP32 ∧ ∃ j < r.enumerator.bip32Paths.length, x.parentPath = some j)
  /-- Path `j` has handed out the steps at `0, …, last_index`, in order, each once. -/
  steps : ∀ j (hj : j < r.enumerator.bip32Paths.length),
    r.log.returned.filter (·.parentPath = some j) =
      entriesBetween c j r.enumerator.bip32Paths[j] 0
        (r.enumerator.bip32Paths[j].lastIndex + 1).toNat
  /-- The gap-limit counters stay in their window. -/
  counters : ∀ pp ∈ r.enumerator.bip32Paths, -1 ≤ pp.highestUsedIndex ∧
    pp.highestUsedIndex ≤ pp.lastIndex ∧
    pp.lastIndex - pp.highestUsedIndex ≤ max (c.gapLimits pp.subpath) 0
  /-- `highest_used_index` is the largest completed index with a history. -/
  highest : ∀ j (hj : j < r.enumerator.bip32Paths.length),
    r.enumerator.bip32Paths[j].highestUsedIndex = highestCompleted r.log.completed j
  /-- Only returned entries complete. -/
  completed : ∀ x ∈ r.log.completed, x.1 ∈ r.log.returned

theorem inv_init {e : SearchKeyEnumerator Key} (he : e.Fresh) : Inv c (init e) where
  fifo := by simp [init]
  pending := he.pending
  returned := by simp [init]
  steps j hj := by
    have hj : j < e.bip32Paths.length := hj
    simp [init, (he.paths _ (List.getElem_mem hj)).1]
  counters pp hp := by
    obtain ⟨h1, h2⟩ := he.paths pp hp
    simp only [h1, h2]
    omega
  highest j hj := by
    have hj : j < e.bip32Paths.length := hj
    simp [init, highestCompleted, (he.paths _ (List.getElem_mem hj)).2]
  completed := by simp [init]

namespace Inv

variable {c} {r : EnumeratorRun Key}

theorem parentPath_ne_length (h : Inv c r) {x : SearchEntry} (hx : x ∈ r.log.returned) :
    x.parentPath ≠ some r.enumerator.bip32Paths.length := by
  rcases h.returned x hx with ⟨-, hp⟩ | ⟨-, j, hj, hp⟩ <;> simp [hp]
  omega

theorem addExplicitItem (h : Inv c r) (keyinstanceId : Int) (scriptType : ScriptType)
    (itemHash : Bytes) :
    Inv c ⟨r.enumerator.addExplicitItem keyinstanceId scriptType itemHash,
      { r.log with added :=
          r.log.added ++ [SearchKeyEnumerator.explicitEntry keyinstanceId scriptType itemHash] }⟩ where
  fifo := by simp [← h.fifo]
  pending x hx := by
    simp only [SearchKeyEnumerator.addExplicitItem_pendingSubscriptions, List.mem_append,
      List.mem_singleton] at hx
    rcases hx with hx | rfl
    · exact h.pending x hx
    · simp
  returned := h.returned
  steps := h.steps
  counters := h.counters
  highest := h.highest
  completed := h.completed

theorem addBip32Subpath (h : Inv c r) (subpath : DerivationPath) (threshold : Int)
    (masterPublicKeys : List Key) (scriptTypes : List ScriptType) :
    Inv c ⟨(r.enumerator.addBip32Subpath c subpath threshold masterPublicKeys scriptTypes).1,
      r.log⟩ where
  fifo := h.fifo
  pending := h.pending
  returned x hx := by
    rcases h.returned x hx with h1 | ⟨hk, j, hj, hp⟩
    · exact .inl h1
    · exact .inr ⟨hk, j, by simp; omega, hp⟩
  steps j hj := by
    simp only [SearchKeyEnumerator.addBip32Subpath_bip32Paths, List.length_append,
      List.length_singleton] at hj ⊢
    rcases Nat.lt_or_ge j r.enumerator.bip32Paths.length with hj' | hj'
    · simp only [List.getElem_append_left hj']
      exact h.steps j hj'
    · have hjl : j = r.enumerator.bip32Paths.length := by omega
      subst hjl
      simp only [List.getElem_append_right (Nat.le_refl _), Nat.sub_self,
        List.getElem_singleton, BIP32ParentPath.create_lastIndex]
      simpa using fun x hx => h.parentPath_ne_length hx
  counters pp hp := by
    simp only [SearchKeyEnumerator.addBip32Subpath_bip32Paths, List.mem_append,
      List.mem_singleton] at hp
    rcases hp with hp | rfl
    · exact h.counters pp hp
    · simp
  highest j hj := by
    simp only [SearchKeyEnumerator.addBip32Subpath_bip32Paths, List.length_append,
      List.length_singleton] at hj ⊢
    rcases Nat.lt_or_ge j r.enumerator.bip32Paths.length with hj' | hj'
    · simp only [List.getElem_append_left hj']
      exact h.highest j hj'
    · have hjl : j = r.enumerator.bip32Paths.length := by omega
      subst hjl
      simp only [List.getElem_append_right (Nat.le_refl _), Nat.sub_self,
        List.getElem_singleton, BIP32ParentPath.create_highestUsedIndex, highestCompleted]
      rw [List.filter_eq_nil_iff.2]
      · rfl
      · intro x hx
        simp [h.parentPath_ne_length (h.completed x hx)]
  completed := h.completed

theorem createNewEntries (h : Inv c r) (n : Int) : Inv c (r.createNewEntries c n).1 := by
  obtain ⟨e, log⟩ := r
  have hpath := obtainAnyBip32Entries_path c (n - e.howMany n) 0 e.bip32Paths
  have hmem : ∀ x ∈ (obtainAnyBip32Entries c (n - e.howMany n) 0 e.bip32Paths).2,
      x.kind = .BIP32 ∧ ∃ j < e.bip32Paths.length, x.parentPath = some (0 + j) :=
    fun x hx => mem_obtainAnyBip32Entries c hx
  have hlen := length_obtainAnyBip32Entries_fst c (n - e.howMany n) 0 e.bip32Paths
  simp only [EnumeratorRun.createNewEntries, SearchKeyEnumerator.createNewEntries]
  generalize obtainAnyBip32Entries c (n - e.howMany n) 0 e.bip32Paths = sweep at hpath hmem hlen ⊢
  generalize (e.howMany n).toNat = t
  have htake : ∀ x ∈ e.pendingSubscriptions.take t, x.kind = .EXPLICIT ∧ x.parentPath = none :=
    fun x hx => h.pending x (List.mem_of_mem_take hx)
  have hsw : ∀ x ∈ sweep.2, x.kind = .BIP32 ∧ ∃ j < e.bip32Paths.length, x.parentPath = some j :=
    fun x hx => by simpa using hmem x hx
  refine ⟨?_, ?_, ?_, ?_, ?_, ?_, ?_⟩ <;> dsimp only
  · -- fifo
    have hft : (e.pendingSubscriptions.take t).filter (·.kind = .EXPLICIT) =
        e.pendingSubscriptions.take t :=
      List.filter_eq_self.2 (by simpa using fun x hx => (htake x hx).1)
    have hfs : sweep.2.filter (·.kind = .EXPLICIT) = [] :=
      List.filter_eq_nil_iff.2 (by simpa using fun x hx => by simp [(hsw x hx).1])
    rw [List.filter_append, List.filter_append, hft, hfs, List.append_nil, List.append_assoc,
      List.take_append_drop]
    exact h.fifo
  · exact fun x hx => h.pending x (List.mem_of_mem_drop hx)
  · intro x hx
    rw [hlen]
    rcases List.mem_append.1 hx with hx | hx
    · exact h.returned x hx
    rcases List.mem_append.1 hx with hx | hx
    · exact .inl (htake x hx)
    · exact .inr (hsw x hx)
  · -- steps
    intro j hj
    have hj' : j < e.bip32Paths.length := hlen ▸ hj
    obtain ⟨k, h1, -, h3⟩ := hpath j hj'
    obtain ⟨_, hq⟩ := List.getElem?_eq_some_iff.1 h1
    have hlo := (h.counters _ (List.getElem_mem hj')).1
    have hlast := (h.counters _ (List.getElem_mem hj')).2.1
    have hft : (e.pendingSubscriptions.take t).filter (·.parentPath = some j) = [] :=
      List.filter_eq_nil_iff.2 (by simpa using fun x hx => by simp [(htake x hx).2])
    simp only [Nat.zero_add] at h3
    rw [hq, List.filter_append, List.filter_append, h.steps j hj', h3, hft,
      List.nil_append, entriesBetween_advance, BIP32ParentPath.advance_lastIndex,
      show (e.bip32Paths[j].lastIndex + k + 1).toNat = (e.bip32Paths[j].lastIndex + 1).toNat + k
        by omega, entriesBetween_add]
    congr 2
    omega
  · -- counters
    intro pp hp
    obtain ⟨j, hj, rfl⟩ := List.mem_iff_getElem.1 hp
    have hj' : j < e.bip32Paths.length := hlen ▸ hj
    obtain ⟨k, h1, h2, -⟩ := hpath j hj'
    obtain ⟨_, hq⟩ := List.getElem?_eq_some_iff.1 h1
    obtain ⟨hlo, hle, hwin⟩ := h.counters _ (List.getElem_mem hj')
    rw [hq]
    simp only [BIP32ParentPath.advance_highestUsedIndex, BIP32ParentPath.advance_lastIndex,
      BIP32ParentPath.advance_subpath]
    rcases Nat.eq_zero_or_pos k with rfl | hk
    · simp only [Nat.cast_zero, add_zero]; exact ⟨hlo, hle, hwin⟩
    · have := h2 hk
      rw [getBip32PathCount_eq c _ hlo] at this
      refine ⟨hlo, by omega, by omega⟩
  · -- highest
    intro j hj
    have hj' : j < e.bip32Paths.length := hlen ▸ hj
    obtain ⟨k, h1, -, -⟩ := hpath j hj'
    obtain ⟨_, hq⟩ := List.getElem?_eq_some_iff.1 h1
    rw [hq, BIP32ParentPath.advance_highestUsedIndex]
    exact h.highest j hj'
  · exact fun x hx => List.mem_append_left _ (h.completed x hx)

/-- A returned entry of path `j` is the entry of one of its script types at an index up to
`last_index`. -/
theorem eq_bip32Entry (h : Inv c r) {x : SearchEntry} (hx : x ∈ r.log.returned) {j : Nat}
    (hj : j < r.enumerator.bip32Paths.length) (hp : x.parentPath = some j) :
    ∃ i : Nat, (i : Int) ≤ r.enumerator.bip32Paths[j].lastIndex ∧
      ∃ st ∈ r.enumerator.bip32Paths[j].scriptTypes, bip32Entry c j r.enumerator.bip32Paths[j] i st = x := by
  have hf : x ∈ r.log.returned.filter (·.parentPath = some j) :=
    List.mem_filter.2 ⟨hx, by simp [hp]⟩
  rw [h.steps j hj] at hf
  obtain ⟨i, hi, hx'⟩ := (mem_entriesBetween c j _).1 hf
  obtain ⟨st, hst, rfl⟩ := (mem_stepEntries c j _).1 hx'
  exact ⟨i, by omega, st, hst, by simp⟩

/-- Conversely, every step up to `last_index` has been returned, for each script type. -/
theorem bip32Entry_mem (h : Inv c r) {j : Nat} (hj : j < r.enumerator.bip32Paths.length) {i : Nat}
    (hi : (i : Int) ≤ r.enumerator.bip32Paths[j].lastIndex) {st : ScriptType}
    (hst : st ∈ r.enumerator.bip32Paths[j].scriptTypes) :
    bip32Entry c j r.enumerator.bip32Paths[j] i st ∈ r.log.returned := by
  have : bip32Entry c j r.enumerator.bip32Paths[j] i st ∈
      r.log.returned.filter (·.parentPath = some j) := by
    rw [h.steps j hj]
    exact (mem_entriesBetween c j _).2 ⟨i, by omega, (mem_stepEntries c j _).2 ⟨st, hst, by simp⟩⟩
  exact List.mem_of_mem_filter this

/-- The token of a returned entry of path `j` is the hasher's value for the children of the
path's keys at the entry's index, with threshold `1`. -/
theorem itemHash_eq (h : Inv c r) {x : SearchEntry} (hx : x ∈ r.log.returned) {j : Nat}
    (hj : j < r.enumerator.bip32Paths.length) (hp : x.parentPath = some j) :
    x.itemHash = c.getItemHashForPublicKeys x.scriptType
      (r.enumerator.bip32Paths[j].parentPublicKeys.map (c.childSafe · x.parentIndex)) 1 := by
  obtain ⟨i, -, st, -, rfl⟩ := h.eq_bip32Entry hx hj hp
  rfl

theorem complete (h : Inv c r) {entry : SearchEntry} (he : entry ∈ r.log.returned)
    (history : History) : Inv c (r.complete entry history) := by
  obtain ⟨e, log⟩ := r
  refine ⟨h.fifo, h.pending, ?_, ?_, ?_, ?_, ?_⟩ <;>
    simp only [EnumeratorRun.complete, length_recordResult]
  · exact h.returned
  · intro j hj
    rw [getElem_recordResult _ _ _ j hj]
    split <;> exact h.steps j hj
  · intro pp hp
    obtain ⟨j, hj, rfl⟩ := List.mem_iff_getElem.1 hp
    have hj' : j < e.bip32Paths.length := by simpa using hj
    obtain ⟨hlo, hle, hwin⟩ := h.counters _ (List.getElem_mem hj')
    rw [getElem_recordResult _ _ _ j hj']
    split
    case isTrue hm =>
      obtain ⟨i, hi, st, -, hx⟩ := h.eq_bip32Entry he hj' hm.2
      have hidx : entry.parentIndex = i := by rw [← hx]; rfl
      dsimp only at hi ⊢
      split <;> refine ⟨by omega, by omega, by omega⟩
    case isFalse => exact ⟨hlo, hle, hwin⟩
  · intro j hj
    have hj' : j < e.bip32Paths.length := by simpa using hj
    rw [getElem_recordResult _ _ _ j hj', highestCompleted_append, ← h.highest j hj']
    by_cases hm : entry.kind = .BIP32 ∧ entry.parentPath = some j <;>
      by_cases hh : history = [] <;> simp [hm, hh, List.length_pos]
  · intro x hx
    rcases List.mem_append.1 hx with hx | hx
    · exact h.completed x hx
    · simp only [List.mem_singleton] at hx
      subst hx
      exact he

/-- Every operation keeps the invariant. -/
theorem step (h : Inv c r) {a : EnumeratorAction Key} {r' : EnumeratorRun Key}
    (hs : r.step c a = some r') : Inv c r' := by
  cases a with
  | addExplicitItem k st ih => cases hs; exact h.addExplicitItem k st ih
  | addBip32Subpath sp th mk sts => cases hs; exact h.addBip32Subpath sp th mk sts
  | createNewEntries n => cases hs; exact h.createNewEntries n
  | complete entry history =>
    simp only [EnumeratorRun.step] at hs
    split at hs
    · cases hs; exact h.complete ‹_› history
    · cases hs

end Inv

theorem Reachable.inv {r : EnumeratorRun Key} (hr : Reachable c r) : Inv c r := by
  induction hr with
  | init he => exact inv_init c he
  | step _ hs ih => exact ih.step hs

/-- No operation lowers the `last_index` of a registered path, nor removes a path. -/
theorem step_lastIndex_mono {r r' : EnumeratorRun Key} {a : EnumeratorAction Key}
    (hs : r.step c a = some r') (j : Nat) (hj : j < r.enumerator.bip32Paths.length) :
    ∃ hj' : j < r'.enumerator.bip32Paths.length,
      r.enumerator.bip32Paths[j].lastIndex ≤ r'.enumerator.bip32Paths[j].lastIndex := by
  cases a with
  | addExplicitItem k st ih => cases hs; exact ⟨hj, le_rfl⟩
  | addBip32Subpath sp th mk sts =>
    cases hs
    refine ⟨by simp; omega, ?_⟩
    simp [List.getElem_append_left hj]
  | createNewEntries n =>
    cases hs
    obtain ⟨k, h1, -, -⟩ := obtainAnyBip32Entries_path c (n - r.enumerator.howMany n) 0
      r.enumerator.bip32Paths j hj
    obtain ⟨hj', hq⟩ := List.getElem?_eq_some_iff.1 h1
    refine ⟨hj', ?_⟩
    simp only [EnumeratorRun.createNewEntries, SearchKeyEnumerator.createNewEntries, hq,
      BIP32ParentPath.advance_lastIndex]
    omega
  | complete entry history =>
    simp only [EnumeratorRun.step] at hs
    split at hs
    · cases hs
      refine ⟨by simpa [EnumeratorRun.complete] using hj, ?_⟩
      simp only [EnumeratorRun.complete]
      rw [getElem_recordResult _ _ _ j hj]
      split <;> exact le_rfl
    · cases hs

/-! ## A sample run -/

/-- Keys are numbers, a child key adds its index to its parent, and a token is the script type's
value followed by the keys. Every subpath has the gap limit `2`. -/
def sampleConfig : ScanConfig Nat where
  childSafe key i := key + i.toNat
  getItemHashForPublicKeys st keys _ := st.toInt.toNat.toUInt8 :: keys.map Nat.toUInt8
  gapLimits _ := 2

/-- One explicit item and one path with two script types. -/
def sampleEnumerator : SearchKeyEnumerator Nat :=
  ⟨[SearchKeyEnumerator.explicitEntry 1 .P2PKH [9]],
    [BIP32ParentPath.create sampleConfig [0] 1 [0] [.P2PKH, .P2PK]]⟩

theorem sampleEnumerator_fresh : sampleEnumerator.Fresh := ⟨by decide, by decide⟩

/-- The sample after `create_new_entries(3)` and a history for the P2PKH entry of child `0`. -/
def sampleRun : EnumeratorRun Nat :=
  ((init sampleEnumerator).createNewEntries sampleConfig 3).1.complete
    (bip32Entry sampleConfig 0 (BIP32ParentPath.create sampleConfig [0] 1 [0] [.P2PKH, .P2PK]) 0
      .P2PKH)
    [⟨"f00d", 100, none⟩]

theorem sampleRun_reachable : Reachable sampleConfig sampleRun :=
  .step (a := .complete _ _) (.step (a := .createNewEntries 3) (.init sampleEnumerator_fresh) rfl)
    (if_pos (by decide))

/-! ## Main results -/

theorem gap_limit_counters {r : EnumeratorRun Key} (hr : Reachable c r) :
    (∀ j (hj : j < r.enumerator.bip32Paths.length),
      -1 ≤ r.enumerator.bip32Paths[j].highestUsedIndex ∧
      r.enumerator.bip32Paths[j].highestUsedIndex ≤ r.enumerator.bip32Paths[j].lastIndex ∧
      r.enumerator.bip32Paths[j].lastIndex - r.enumerator.bip32Paths[j].highestUsedIndex ≤
        max (c.gapLimits r.enumerator.bip32Paths[j].subpath) 0 ∧
      r.enumerator.bip32Paths[j].highestUsedIndex = highestCompleted r.log.completed j) ∧
    ∀ (a : EnumeratorAction Key) (r' : EnumeratorRun Key), r.step c a = some r' →
      ∀ j (hj : j < r.enumerator.bip32Paths.length), ∃ hj' : j < r'.enumerator.bip32Paths.length,
        r.enumerator.bip32Paths[j].lastIndex ≤ r'.enumerator.bip32Paths[j].lastIndex := by
  have h := hr.inv
  refine ⟨fun j hj => ?_, fun a r' hs => step_lastIndex_mono c hs⟩
  obtain ⟨h1, h2, h3⟩ := h.counters _ (List.getElem_mem hj)
  exact ⟨h1, h2, h3, h.highest j hj⟩

theorem sampleRun_gap_limit_counters :
    Reachable sampleConfig sampleRun ∧
    (∀ j (hj : j < sampleRun.enumerator.bip32Paths.length),
      -1 ≤ sampleRun.enumerator.bip32Paths[j].highestUsedIndex ∧
      sampleRun.enumerator.bip32Paths[j].highestUsedIndex ≤
        sampleRun.enumerator.bip32Paths[j].lastIndex ∧
      sampleRun.enumerator.bip32Paths[j].lastIndex -
          sampleRun.enumerator.bip32Paths[j].highestUsedIndex ≤
        max (sampleConfig.gapLimits sampleRun.enumerator.bip32Paths[j].subpath) 0 ∧
      sampleRun.enumerator.bip32Paths[j].highestUsedIndex =
        highestCompleted sampleRun.log.completed j) ∧
    ∀ (a : EnumeratorAction Nat) (r' : EnumeratorRun Nat), sampleRun.step sampleConfig a = some r' →
      ∀ j (hj : j < sampleRun.enumerator.bip32Paths.length),
        ∃ hj' : j < r'.enumerator.bip32Paths.length,
          sampleRun.enumerator.bip32Paths[j].lastIndex ≤ r'.enumerator.bip32Paths[j].lastIndex :=
  ⟨sampleRun_reachable, gap_limit_counters sampleConfig sampleRun_reachable⟩

theorem returned_bip32_entries {r : EnumeratorRun Key} (hr : Reachable c r) (j : Nat)
    (hj : j < r.enumerator.bip32Paths.length) :
    r.log.returned.filter (fun x => x.kind = .BIP32 ∧ x.parentPath = some j) =
      (List.range (r.enumerator.bip32Paths[j].lastIndex + 1).toNat).flatMap fun i =>
        r.enumerator.bip32Paths[j].scriptTypes.map fun st =>
          bip32Entry c j r.enumerator.bip32Paths[j] i st := by
  have h := hr.inv
  have hcongr : r.log.returned.filter (fun x => x.kind = .BIP32 ∧ x.parentPath = some j) =
      r.log.returned.filter (·.parentPath = some j) := by
    refine List.filter_congr fun x hx => ?_
    rcases h.returned x hx with ⟨-, hp⟩ | ⟨hk, -⟩
    · simp [hp]
    · simp [hk]
  rw [hcongr, h.steps j hj]
  simp [entriesBetween, stepEntries]

theorem sampleRun_returned_bip32_entries :
    Reachable sampleConfig sampleRun ∧ 0 < sampleRun.enumerator.bip32Paths.length ∧
    sampleRun.log.returned.filter (fun x => x.kind = .BIP32 ∧ x.parentPath = some 0) =
      (List.range (sampleRun.enumerator.bip32Paths[0].lastIndex + 1).toNat).flatMap fun i =>
        sampleRun.enumerator.bip32Paths[0].scriptTypes.map fun st =>
          bip32Entry sampleConfig 0 sampleRun.enumerator.bip32Paths[0] i st :=
  ⟨sampleRun_reachable, by decide,
    returned_bip32_entries sampleConfig sampleRun_reachable 0 (by decide)⟩

theorem explicit_entries_fifo {r : EnumeratorRun Key} (hr : Reachable c r) :
    r.log.returned.filter (·.kind = .EXPLICIT) ++ r.enumerator.pendingSubscriptions =
      r.log.added ∧
    ∀ n : Int, (∃ x ∈ (r.enumerator.createNewEntries c n).2, x.kind = .BIP32) →
      (r.enumerator.createNewEntries c n).1.pendingSubscriptions = [] := by
  have h := hr.inv
  refine ⟨h.fifo, fun n ⟨x, hx, hk⟩ => ?_⟩
  apply SearchKeyEnumerator.createNewEntries_pending_eq_nil
  simp only [SearchKeyEnumerator.createNewEntries, List.mem_append] at hx
  rcases hx with hx | hx
  · have := (h.pending x (List.mem_of_mem_take hx)).1
    rw [hk] at this
    cases this
  · exact List.ne_nil_of_mem hx

theorem sampleRun_explicit_entries_fifo :
    Reachable sampleConfig sampleRun ∧
    sampleRun.log.returned.filter (·.kind = .EXPLICIT) ++ sampleRun.enumerator.pendingSubscriptions =
      sampleRun.log.added ∧
    ∀ n : Int, (∃ x ∈ (sampleRun.enumerator.createNewEntries sampleConfig n).2, x.kind = .BIP32) →
      (sampleRun.enumerator.createNewEntries sampleConfig n).1.pendingSubscriptions = [] :=
  ⟨sampleRun_reachable, explicit_entries_fifo sampleConfig sampleRun_reachable⟩

theorem create_new_entries_contract (e : SearchKeyEnumerator Key) (n : Int) :
    (n ≤ 0 → e.createNewEntries c n = (e, [])) ∧
    ((e.createNewEntries c n).2.length : Int) ≤
      max n 0 + max 0 ((maxScriptTypes e.bip32Paths : Int) - 1) ∧
    (((e.createNewEntries c n).2.length : Int) < n →
      (e.createNewEntries c n).1.pendingSubscriptions = [] ∧
      ∀ pp ∈ (e.createNewEntries c n).1.bip32Paths, getBip32PathCount c pp ≤ 0) :=
  ⟨SearchKeyEnumerator.createNewEntries_of_nonpos c e n,
    SearchKeyEnumerator.length_createNewEntries_le c e n,
    SearchKeyEnumerator.createNewEntries_exhausted c e n⟩

/-- The loop of `_obtain_entries_from_bip32_path` stops after `k ≤ max 0 b` iterations, where
`b` is the budget on entry: iteration `j` is entered with `m - j · |script_types|` candidates
wanted and the path advanced by `j`, and each iteration lowers the budget by one. Any fuel of at
least `k` gives the same result, so the bound the model runs it on is never reached. -/
theorem bip32_path_loop_terminates (ix : Nat) (m : Int) (pp : BIP32ParentPath Key) :
    ∃ k : Nat, (k : Int) ≤ max 0 (getBip32PathCount c pp) ∧
      (∀ j : Nat, j < k →
        0 < m - j * pp.scriptTypes.length ∧ 0 < getBip32PathCount c (pp.advance j)) ∧
      ¬(0 < m - k * pp.scriptTypes.length ∧ 0 < getBip32PathCount c (pp.advance k)) ∧
      (∀ fuel, k ≤ fuel → obtainEntriesLoop c ix fuel m pp =
        (pp.advance k, entriesBetween c ix pp (pp.lastIndex + 1) k)) ∧
      ∀ j : Nat, (pp.advance (j + 1)).lastIndex = (pp.advance j).lastIndex + 1 ∧
        getBip32PathCount c (pp.advance (j + 1)) = getBip32PathCount c (pp.advance j) - 1 ∧
        (pp.advance (j + 1)).highestUsedIndex = (pp.advance j).highestUsedIndex := by
  obtain ⟨k, -, hsteps, hstop⟩ := obtainEntriesFromBip32Path_spec c ix m pp
  simp only [getBip32PathCount_advance, BIP32ParentPath.advance_lastIndex,
    BIP32ParentPath.advance_highestUsedIndex]
  refine ⟨k, ?_, hsteps, by omega, fun fuel hf => ?_, fun j => ⟨by push_cast; ring, by omega, trivial⟩⟩
  · rcases Nat.eq_zero_or_pos k with rfl | hk
    · simp
    · have := (hsteps (k - 1) (by omega)).2
      omega
  · -- any run with enough fuel stops at the first iteration whose test fails, which is `k`
    obtain ⟨k', hrun, -, hsteps', hstop'⟩ := obtainEntriesLoop_spec c ix fuel m pp
    have hle : k' ≤ k := by
      by_contra hlt
      have := hsteps' k (by omega)
      omega
    have hge : k ≤ k' := by
      by_contra hlt
      have := hsteps k' (by omega)
      have := hstop' (by omega)
      omega
    rw [hrun, Nat.le_antisymm hle hge]

/-- A hasher that, like `ScriptHasher` on a multi-signer template, reads the threshold. -/
def multisigConfig : ScanConfig Nat where
  childSafe key i := key + i.toNat
  getItemHashForPublicKeys st keys threshold :=
    st.toInt.toNat.toUInt8 :: threshold.toNat.toUInt8 :: keys.map Nat.toUInt8
  gapLimits _ := 2

/-- A 2-of-2 path over the master keys `10` and `20`, scanned for `MULTISIG_P2SH`. -/
def multisigPath : BIP32ParentPath Nat :=
  BIP32ParentPath.create multisigConfig [0] 2 [10, 20] [.MULTISIG_P2SH]

theorem multisig_token_ignores_threshold :
    (∀ {Key : Type} (c : ScanConfig Key) (r : EnumeratorRun Key), Reachable c r →
      ∀ x ∈ r.log.returned, ∀ j (hj : j < r.enumerator.bip32Paths.length),
        x.parentPath = some j → x.itemHash = c.getItemHashForPublicKeys x.scriptType
          (r.enumerator.bip32Paths[j].parentPublicKeys.map (c.childSafe · x.parentIndex)) 1) ∧
    ∃ x ∈ (SearchKeyEnumerator.createNewEntries multisigConfig ⟨[], [multisigPath]⟩ 1).2,
      x.parentPath = some 0 ∧ x.itemHash ≠ multisigConfig.getItemHashForPublicKeys x.scriptType
        (multisigPath.parentPublicKeys.map (multisigConfig.childSafe · x.parentIndex))
        multisigPath.threshold :=
  ⟨fun c _ hr _ hx _ hj hp => (Reachable.inv c hr).itemHash_eq hx hj hp, by decide⟩

end EnumeratorRun

end ElectrumSV
