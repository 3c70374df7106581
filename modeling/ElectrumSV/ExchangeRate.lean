import Mathlib.Logic.Function.Basic
import ElectrumSV.Transaction.Packing
/-!
# Exchange rates: the refresh loop and its history cache

`FxTask` (`exchange_rate.py`) holds one exchange object, whose quotes and historical rates its
coroutine `refresh_loop` fetches each time `refresh_event` is set or 150 seconds pass. The loop
suspends twice, on `get_historical_rates` and on `update`, and the task's setters run in between:
they replace the exchange object, change the currency, or set `fetch_history`, which asks the
next pass for a history fetch. The model is a step function over the task, the position of the
loop and the files of the cache directory; the network's answers and the clock are inputs of the
steps. A fetch writes into the exchange object it was started on, which the task may have
replaced meanwhile: the objects are told apart by a number.

* `Reachable.ccy_eq_getCurrency`: the task's currency is always the configured one, so
  `set_currency`, which compares with the configuration, compares with the task's currency.
* `history_fetch_needs_trigger`: once `fetch_history` is clear, no history fetch starts without a
  call of `set_currency`, `set_exchange` or `set_history_config(True)`, however often the loop
  wakes; a history fetch that fails is not retried.
* `stale_history_cache_frozen`: `_get_historical_rates` reads its cache file and the clock as its
  thread starts. It asks the network when the file was then less than a day old, and writes the
  answer to the file when it comes; otherwise it returns the table read. So once the file of an
  exchange and a currency is a day old, and no fetch under way read it while it was younger, it
  stays as it is, and the history of that exchange holds the file's table for that currency,
  whatever the network answers.
* `getExchangesByCcy_showHistory`: the exchanges the task offers for its currency with history
  are those whose `history_ccys` lists it (`dictinvert_lookup`), and choosing one shows history
  exactly when the two settings ask for it.
-/

namespace ElectrumSV

/-- A table of rates: historical rates by date, or quotes by currency. -/
abbrev RateTable (Rate : Type) := List (String × Rate)

/-- The subclasses of `ExchangeBase`, and the base itself. -/
inductive ExchangeClass
  | exchangeBase | bitPay | bitfinex | coinbase | coinFloor | coinPaprika | coinCap | coinGecko
  deriving DecidableEq, Repr

/-- A file of the cache directory: what `json.loads` reads from it (`none` where it raises) and
its modification time in seconds. -/
structure CacheFile (Rate : Type) where
  content : Option (RateTable Rate)
  mtime : Int

/-- The cache directory: its files by name. -/
abbrev CacheDir (Rate : Type) := String → Option (CacheFile Rate)

variable {Rate : Type}

namespace ExchangeClass

/-- The classes in the order of the module. -/
def all : List ExchangeClass :=
  [exchangeBase, bitPay, bitfinex, coinbase, coinFloor, coinPaprika, coinCap, coinGecko]

/-- `ExchangeBase.name`: the name of the object's class. -/
def name : ExchangeClass → String
  | exchangeBase => "ExchangeBase"
  | bitPay => "BitPay"
  | bitfinex => "Bitfinex"
  | coinbase => "Coinbase"
  | coinFloor => "CoinFloor"
  | coinPaprika => "CoinPaprika"
  | coinCap => "CoinCap"
  | coinGecko => "CoinGecko"

/-- `history_ccys`: the currencies the class has historical rates for. -/
def historyCcys : ExchangeClass → List String
  | coinPaprika | coinCap => ["USD"]
  | coinGecko =>
    ["AED", "ARS", "AUD", "BTD", "BHD", "BMD", "BRL", "BTC",
     "CAD", "CHF", "CLP", "CNY", "CZK", "DKK", "ETH", "EUR",
     "GBP", "HKD", "HUF", "IDR", "ILS", "INR", "JPY", "KRW",
     "KWD", "LKR", "LTC", "MMK", "MXH", "MYR", "NOK", "NZD",
     "PHP", "PKR", "PLN", "RUB", "SAR", "SEK", "SGD", "THB",
     "TRY", "TWD", "USD", "VEF", "XAG", "XAU", "XDR", "ZAR"]
  | _ => []

/-- The class that `globals()` holds under `name`. The module's other globals are not exchange
classes: calling one in place of an exchange class raises, or makes an object without
`history_ccys`. -/
def ofName? (name : String) : Option ExchangeClass :=
  all.find? fun cls => cls.name == name

/-- The cache file of a class and a currency, `self.name() + '_' + ccy` in the cache directory. -/
def cacheFileName (cls : ExchangeClass) (ccy : String) : String := cls.name ++ "_" ++ ccy

/-- `read_historical_rates`: the table in the cache file and the file's modification time, where
the file exists and reads. -/
def readHistoricalRates (cls : ExchangeClass) (files : CacheDir Rate) (ccy : String) :
    Option (RateTable Rate × Int) :=
  (files (cls.cacheFileName ccy)).bind fun f => f.content.map fun h => (h, f.mtime)

/-- `_get_historical_rates` on a thread that started at `start`, when `read_historical_rates`
gave `cached`, and returns at `now`, `request_history` answering `request` (`none` where it
raises): the table and the cache directory after. The network is asked when there was no
readable file or when `time.time() - timestamp < 24*3600` at the start, and its table is written
to the file when the answer comes; otherwise the table read is returned. -/
def getHistoricalRates (cls : ExchangeClass) (files : CacheDir Rate) (ccy : String)
    (cached : Option (RateTable Rate × Int)) (start now : Int) (request : Option (RateTable Rate)) :
    Option (RateTable Rate × CacheDir Rate) :=
  let requested := request.map fun h =>
    (h, Function.update files (cls.cacheFileName ccy) (some ⟨some h, now⟩))
  match cached with
  | some (h, timestamp) => if start - timestamp < 24 * 3600 then requested else some (h, files)
  | none => requested

theorem cacheFileName_inj {cls : ExchangeClass} {c c' : String}
    (h : cls.cacheFileName c = cls.cacheFileName c') : c = c' :=
  String.ext <| List.append_cancel_left <| List.append_cancel_left <| by
    simpa only [cacheFileName, String.data_append, List.append_assoc] using congrArg String.data h

theorem readHistoricalRates_eq_some {cls : ExchangeClass} {files : CacheDir Rate} {ccy : String}
    {h : RateTable Rate} {m : Int} :
    cls.readHistoricalRates files ccy = some (h, m) ↔
      files (cls.cacheFileName ccy) = some ⟨some h, m⟩ := by
  unfold readHistoricalRates
  constructor
  · intro hr
    obtain ⟨⟨c, m'⟩, hf, hc⟩ := Option.bind_eq_some.1 hr
    obtain ⟨h', rfl, hh⟩ := Option.map_eq_some'.1 hc
    simp only [Prod.mk.injEq] at hh
    obtain ⟨rfl, rfl⟩ := hh
    exact hf
  · intro hf
    simp [hf]

/-- A table read at least a day after it was written is returned as it is, whatever the network
would answer. -/
theorem getHistoricalRates_of_stale {cls : ExchangeClass} {files : CacheDir Rate} {ccy : String}
    {h : RateTable Rate} {m start : Int} (hage : m + 24 * 3600 ≤ start) (now : Int)
    (request : Option (RateTable Rate)) :
    cls.getHistoricalRates files ccy (some (h, m)) start now request = some (h, files) := by
  simp only [getHistoricalRates, if_neg (show ¬ start - m < 24 * 3600 by omega)]

/-- `_get_historical_rates` returns the table it read and leaves the files, or returns the
network's answer and writes it to its file at `now`. -/
theorem getHistoricalRates_cases {cls : ExchangeClass} {files files' : CacheDir Rate}
    {ccy : String} {cached : Option (RateTable Rate × Int)} {start now : Int}
    {request : Option (RateTable Rate)} {h : RateTable Rate}
    (hg : cls.getHistoricalRates files ccy cached start now request = some (h, files')) :
    (∃ m, cached = some (h, m) ∧ files' = files) ∨
      files' = Function.update files (cls.cacheFileName ccy) (some ⟨some h, now⟩) := by
  have hreq : request.map (fun h => (h, Function.update files (cls.cacheFileName ccy)
      (some ⟨some h, now⟩))) = some (h, files') →
      files' = Function.update files (cls.cacheFileName ccy) (some ⟨some h, now⟩) := fun hr => by
    obtain ⟨h', -, hh⟩ := Option.map_eq_some'.1 hr
    obtain ⟨rfl, rfl⟩ := Prod.mk.inj hh
    rfl
  unfold getHistoricalRates at hg
  split at hg
  · split at hg
    · exact .inr (hreq hg)
    · obtain ⟨rfl, rfl⟩ := Prod.mk.inj (Option.some.inj hg)
      exact .inl ⟨_, rfl, rfl⟩
  · exact .inr (hreq hg)

/-- `_get_historical_rates` writes no file but its own. -/
theorem getHistoricalRates_frame {cls : ExchangeClass} {files files' : CacheDir Rate}
    {ccy : String} {cached : Option (RateTable Rate × Int)} {start now : Int}
    {request : Option (RateTable Rate)} {h : RateTable Rate}
    (hg : cls.getHistoricalRates files ccy cached start now request = some (h, files'))
    (name : String) (hn : name ≠ cls.cacheFileName ccy) : files' name = files name := by
  rcases getHistoricalRates_cases hg with ⟨-, -, rfl⟩ | rfl
  · rfl
  · exact Function.update_noteq hn _ _

/-- What `_get_historical_rates` returns, when what its thread read is the file as it still is, is
the table of its cache file afterwards. -/
theorem getHistoricalRates_eq_some {cls : ExchangeClass} {files files' : CacheDir Rate}
    {ccy : String} {cached : Option (RateTable Rate × Int)} {start now : Int}
    {request : Option (RateTable Rate)} {h : RateTable Rate}
    (hc : cached = cls.readHistoricalRates files ccy)
    (hg : cls.getHistoricalRates files ccy cached start now request = some (h, files')) :
    ∃ m, files' (cls.cacheFileName ccy) = some ⟨some h, m⟩ := by
  rcases getHistoricalRates_cases hg with ⟨m, rfl, rfl⟩ | rfl
  · exact ⟨m, readHistoricalRates_eq_some.1 hc.symm⟩
  · exact ⟨now, Function.update_same _ _ _⟩

end ExchangeClass

/-- An exchange object: its class, `history` (a table by currency) and `quotes`. -/
structure Exchange (Rate : Type) where
  cls : ExchangeClass
  history : String → Option (RateTable Rate)
  quotes : RateTable Rate

/-- `ExchangeBase.__init__`: no history and no quotes. -/
def Exchange.new (cls : ExchangeClass) : Exchange Rate := ⟨cls, fun _ => none, []⟩

/-- The keys of the configuration that `FxTask` reads, `none` where unset. -/
structure FxConfig where
  useExchangeRate : Option Bool
  historyRates : Option Bool
  currency : Option String
  useExchange : Option String
  deriving DecidableEq, Repr

/-- Where `refresh_loop` is. A fetch names the object it was started on, by its number, and the
object's class, which names the cache file. -/
inductive RefreshPoint (Rate : Type)
  /-- At `await self.refresh_event.wait()`, which `ignore_after(150)` ends after 150 seconds. -/
  | waiting
  /-- At `await self.exchange.get_historical_rates(self.ccy, self.cache_dir)`, whose thread read
  the cache file, `cached`, and the clock, `start`, as it started. -/
  | gettingHistory (exchangeId : Nat) (cls : ExchangeClass) (ccy : String)
      (cached : Option (RateTable Rate × Int)) (start : Int)
  /-- At `await self.exchange.update(self.ccy)`. -/
  | updating (exchangeId : Nat) (ccy : String)

/-- Whether a history fetch is under way. -/
def RefreshPoint.isGettingHistory : RefreshPoint Rate → Bool
  | .gettingHistory .. => true
  | _ => false

/-- `FxTask` with its exchange object, the position of `refresh_loop`, the cache directory and
the clock. -/
structure FxTask (Rate : Type) where
  config : FxConfig
  ccy : String
  fetchHistory : Bool
  refreshEvent : Bool
  exchange : Exchange Rate
  /-- The number of the exchange object: `set_exchange` makes a new one. -/
  exchangeId : Nat
  loop : RefreshPoint Rate
  cacheFiles : CacheDir Rate
  now : Int

/-- What happens to the task: a call of one of its setters, time passing, or the next stretch of
`refresh_loop`, with what the network answers. -/
inductive FxAction (Rate : Type)
  | setEnabled (enabled : Bool)
  | setHistoryConfig (enabled : Bool)
  | setCurrency (ccy : String)
  | setExchange (name : String)
  | tick (seconds : Nat)
  /-- `refresh_event.wait()` returns, or its 150 seconds pass. -/
  | wake
  /-- The history fetch returns; `request_history` answers `request` (`none` where it raises). -/
  | historyFetched (request : Option (RateTable Rate))
  /-- The quotes update returns; `get_rates` answers `quotes` (`none` where it raises). -/
  | quotesFetched (quotes : Option (RateTable Rate))

/-- The setters that may ask for a history fetch. -/
def FxAction.requestsHistory : FxAction Rate → Bool
  | .setHistoryConfig enabled => enabled
  | .setCurrency _ | .setExchange _ => true
  | _ => false

namespace FxTask

section Methods

variable (t : FxTask Rate)

/-- `is_enabled`: `bool(self.config.get('use_exchange_rate'))`. -/
def isEnabled : Bool := t.config.useExchangeRate.getD false

/-- `get_history_config`: `bool(self.config.get('history_rates'))`. -/
def getHistoryConfig : Bool := t.config.historyRates.getD false

/-- `get_currency`: the configured currency, `"EUR"` by default. -/
def getCurrency : String := t.config.currency.getD "EUR"

/-- `config_exchange`: the configured exchange, `"CoinGecko"` by default. -/
def configExchange : String := t.config.useExchange.getD "CoinGecko"

/-- `show_history`. -/
def showHistory : Bool :=
  t.isEnabled && t.getHistoryConfig && decide (t.ccy ∈ t.exchange.cls.historyCcys)

/-- `trigger_history_refresh`. -/
def triggerHistoryRefresh : FxTask Rate := { t with fetchHistory := true, refreshEvent := true }

/-- `set_enabled`. -/
def setEnabled (enabled : Bool) : FxTask Rate :=
  { t with config := { t.config with useExchangeRate := some enabled } }

/-- `set_history_config`: a history refresh when the task is enabled and history turned on. -/
def setHistoryConfig (enabled : Bool) : FxTask Rate :=
  let t := { t with config := { t.config with historyRates := some enabled } }
  if t.isEnabled && enabled then t.triggerHistoryRefresh else t

/-- `set_currency`: a new currency is set on the task and in the configuration, with a history
refresh; the currency it is compared with is the configured one. -/
def setCurrency (ccy : String) : FxTask Rate :=
  if t.getCurrency ≠ ccy then
    { t with ccy := ccy, config := { t.config with currency := some ccy } }.triggerHistoryRefresh
  else t

/-- `set_exchange`: a new object of the class of that name, `CoinGecko` where the module has no
global of that name (a global that is not an exchange class is left out), with a history refresh;
the configuration is written where it names another exchange. -/
def setExchange (name : String) : FxTask Rate :=
  let class_ := (ExchangeClass.ofName? name).getD .coinGecko
  let config := if t.configExchange ≠ name then { t.config with useExchange := some name }
    else t.config
  { t with config := config, exchange := .new class_, exchangeId := t.exchangeId + 1
    }.triggerHistoryRefresh

/-- `FxTask.__init__` with the configuration, the files of the cache directory and the clock: the
currency is the configured one, and `set_exchange(self.config_exchange())` makes the exchange
object (the one before it stands for the attribute not yet set) and asks for a history fetch. -/
def init (config : FxConfig) (cacheFiles : CacheDir Rate) (now : Int) : FxTask Rate :=
  let t : FxTask Rate := ⟨config, "", false, false, .new .coinGecko, 0, .waiting, cacheFiles, now⟩
  let t := { t with ccy := t.getCurrency }
  t.setExchange t.configExchange

/-- `refresh_loop` from `await self.refresh_event.wait()`: the event is cleared; a disabled task
waits again, and an enabled one starts the history fetch that `fetch_history` asks for where
`show_history()` holds, clearing the flag, or else the quotes update. The fetch's thread reads
the cache file and the clock as it starts. -/
def wake : FxTask Rate :=
  let t := { t with refreshEvent := false }
  if !t.isEnabled then t
  else if t.fetchHistory && t.showHistory then
    { t with
      fetchHistory := false
      loop := .gettingHistory t.exchangeId t.exchange.cls t.ccy
        (t.exchange.cls.readHistoricalRates t.cacheFiles t.ccy) t.now }
  else { t with loop := .updating t.exchangeId t.ccy }

/-- `get_historical_rates` on object `id` of class `cls` returns, its thread having read `cached`
at `start`: the table that `_get_historical_rates` returns is stored under `ccy` in that object's
history, where the object is still the task's, and an exception changes nothing. The loop goes
on to update the quotes of the task's exchange object in the task's currency. -/
def historyFetched (id : Nat) (cls : ExchangeClass) (ccy : String)
    (cached : Option (RateTable Rate × Int)) (start : Int) (request : Option (RateTable Rate)) :
    FxTask Rate :=
  let t := match cls.getHistoricalRates t.cacheFiles ccy cached start t.now request with
    | some (h, files) =>
      { t with
        cacheFiles := files
        exchange := if id = t.exchangeId then
          { t.exchange with history := Function.update t.exchange.history ccy (some h) }
          else t.exchange }
    | none => t
  { t with loop := .updating t.exchangeId t.ccy }

/-- `update` on object `id` returns: the quotes that `get_rates` returns replace that object's,
where the object is still the task's, and an exception changes nothing. -/
def quotesFetched (id : Nat) (quotes : Option (RateTable Rate)) : FxTask Rate :=
  let t := match quotes with
    | some q => if id = t.exchangeId then { t with exchange := { t.exchange with quotes := q } }
      else t
    | none => t
  { t with loop := .waiting }

/-- One step of the task; `none` where the loop is not at the point the action returns from. -/
def step : FxAction Rate → Option (FxTask Rate)
  | .setEnabled enabled => some (t.setEnabled enabled)
  | .setHistoryConfig enabled => some (t.setHistoryConfig enabled)
  | .setCurrency ccy => some (t.setCurrency ccy)
  | .setExchange name => some (t.setExchange name)
  | .tick seconds => some { t with now := t.now + seconds }
  | .wake =>
    match t.loop with
    | .waiting => some t.wake
    | _ => none
  | .historyFetched request =>
    match t.loop with
    | .gettingHistory id cls ccy cached start => some (t.historyFetched id cls ccy cached start request)
    | _ => none
  | .quotesFetched quotes =>
    match t.loop with
    | .updating id _ => some (t.quotesFetched id quotes)
    | _ => none

end Methods

/-- The task after the actions `as` in turn, or `none` once one of them is not enabled. -/
def runActions (t : FxTask Rate) : List (FxAction Rate) → Option (FxTask Rate)
  | [] => some t
  | a :: as =>
    match t.step a with
    | some t' => runActions t' as
    | none => none

/-- The tasks that `__init__` and the steps reach. -/
inductive Reachable : FxTask Rate → Prop
  | init (config : FxConfig) (cacheFiles : CacheDir Rate) (now : Int) :
      Reachable (init config cacheFiles now)
  | step {t t' : FxTask Rate} (a : FxAction Rate) : Reachable t → t.step a = some t' → Reachable t'

/-! ## What a stretch of the loop can do -/

section Steps

variable {t t' : FxTask Rate}

theorem step_wake (hs : t.step .wake = some t') : t.loop = .waiting ∧ t' = t.wake := by
  simp only [step] at hs
  split at hs
  · exact ⟨‹_›, (Option.some.inj hs).symm⟩
  · contradiction

theorem step_historyFetched {request : Option (RateTable Rate)}
    (hs : t.step (.historyFetched request) = some t') :
    ∃ id cls ccy cached start, t.loop = .gettingHistory id cls ccy cached start ∧
      t' = t.historyFetched id cls ccy cached start request := by
  simp only [step] at hs
  split at hs
  · exact ⟨_, _, _, _, _, ‹_›, (Option.some.inj hs).symm⟩
  · contradiction

@[simp] theorem historyFetched_now (id : Nat) (cls : ExchangeClass) (ccy : String)
    (cached : Option (RateTable Rate × Int)) (start : Int) (request : Option (RateTable Rate)) :
    (t.historyFetched id cls ccy cached start request).now = t.now := by
  unfold historyFetched
  split <;> rfl

@[simp] theorem historyFetched_loop (id : Nat) (cls : ExchangeClass) (ccy : String)
    (cached : Option (RateTable Rate × Int)) (start : Int) (request : Option (RateTable Rate)) :
    (t.historyFetched id cls ccy cached start request).loop = .updating t.exchangeId t.ccy := by
  unfold historyFetched
  split <;> rfl

theorem step_quotesFetched {quotes : Option (RateTable Rate)}
    (hs : t.step (.quotesFetched quotes) = some t') :
    ∃ id ccy, t.loop = .updating id ccy ∧ t' = t.quotesFetched id quotes := by
  simp only [step] at hs
  split at hs
  · exact ⟨_, _, ‹_›, (Option.some.inj hs).symm⟩
  · contradiction

/-- From the event the task waits again, starts a history fetch that `fetch_history` asked for,
or starts an update. -/
theorem wake_cases :
    t.wake = { t with refreshEvent := false } ∨
      t.fetchHistory = true ∧ t.wake = { t with
        refreshEvent := false, fetchHistory := false,
        loop := .gettingHistory t.exchangeId t.exchange.cls t.ccy
          (t.exchange.cls.readHistoricalRates t.cacheFiles t.ccy) t.now } ∨
      t.wake = { t with refreshEvent := false, loop := .updating t.exchangeId t.ccy } := by
  dsimp only [wake]
  split
  · exact .inl rfl
  · split
    · exact .inr (.inl ⟨(Bool.and_eq_true_iff.1 ‹_›).1, rfl⟩)
    · exact .inr (.inr rfl)

/-- An update replaces at most the exchange object's quotes, and the loop waits again. -/
theorem quotesFetched_eq (id : Nat) (quotes : Option (RateTable Rate)) :
    ∃ q, t.quotesFetched id quotes =
      { t with exchange := { t.exchange with quotes := q }, loop := .waiting } := by
  unfold quotesFetched
  split
  · split
    · exact ⟨_, rfl⟩
    · exact ⟨t.exchange.quotes, rfl⟩
  · exact ⟨t.exchange.quotes, rfl⟩

end Steps

/-! ## Invariants of every reachable task -/

section Invariants

variable {t t' : FxTask Rate}

/-- How a fetch under way relates to the task's exchange object: a history fetch started on the
current object is for its class, and one started on an earlier object leaves the current one
without history, since no fetch of the current one has started since. -/
def Bound (t : FxTask Rate) : Prop :=
  match t.loop with
  | .gettingHistory id cls _ _ _ =>
    id = t.exchangeId ∧ cls = t.exchange.cls ∨ id < t.exchangeId ∧ ∀ c, t.exchange.history c = none
  | _ => True

/-- A history fetch under way read the cache file as it still is, at a time not after now: only
the fetch writes the file. -/
def Snapshot (t : FxTask Rate) : Prop :=
  match t.loop with
  | .gettingHistory _ cls c cached start =>
    cached = cls.readHistoricalRates t.cacheFiles c ∧ start ≤ t.now
  | _ => True

/-- What every reachable task keeps. -/
structure Inv (t : FxTask Rate) : Prop where
  ccy_eq : t.ccy = t.getCurrency
  bound : t.Bound
  snapshot : t.Snapshot
  /-- Every table of the history is the content of its cache file. -/
  history_cached : ∀ c h, t.exchange.history c = some h →
    ∃ m, t.cacheFiles (t.exchange.cls.cacheFileName c) = some ⟨some h, m⟩

theorem snapshot_of_loop (h : t.loop.isGettingHistory = false) : t.Snapshot := by
  unfold Snapshot
  split
  · rename_i hl
    rw [hl] at h
    cases h
  · trivial

theorem Snapshot.tick (h : t.Snapshot) (seconds : Nat) :
    Snapshot { t with now := t.now + seconds } := by
  unfold Snapshot at h ⊢
  split
  · rename_i hl
    rw [show t.loop = _ from hl] at h
    exact ⟨h.1, by dsimp only; omega⟩
  · trivial

theorem inv_setExchange (hi : t.Inv) (name : String) : (t.setExchange name).Inv := by
  have hb : (t.setExchange name).Bound := by
    have := hi.bound
    unfold Bound at this ⊢
    split
    · rename_i id cls c cached start hl
      rw [show t.loop = _ from hl] at this
      have hid : (t.setExchange name).exchangeId = t.exchangeId + 1 := rfl
      exact .inr ⟨by omega, fun _ => rfl⟩
    · trivial
  refine ⟨?_, hb, hi.snapshot, fun c h hh => nomatch hh⟩
  dsimp only [setExchange]
  split <;> exact hi.ccy_eq

theorem inv_init (config : FxConfig) (cacheFiles : CacheDir Rate) (now : Int) :
    (init config cacheFiles now).Inv := by
  refine inv_setExchange ⟨rfl, by unfold Bound; trivial, by unfold Snapshot; trivial,
    fun _ _ hh => ?_⟩ _
  cases hh

theorem inv_historyFetched (hi : t.Inv) {id : Nat} {cls : ExchangeClass} {ccy : String}
    {cached : Option (RateTable Rate × Int)} {start : Int}
    (hl : t.loop = .gettingHistory id cls ccy cached start) (request : Option (RateTable Rate)) :
    (t.historyFetched id cls ccy cached start request).Inv := by
  have hb := hi.bound
  have hsnap := hi.snapshot
  rw [Bound, hl] at hb
  rw [Snapshot, hl] at hsnap
  dsimp only [historyFetched]
  split
  · rename_i h files hg
    obtain ⟨m, hm⟩ := ExchangeClass.getHistoricalRates_eq_some hsnap.1 hg
    refine ⟨hi.ccy_eq, by unfold Bound; trivial, snapshot_of_loop rfl, ?_⟩
    dsimp only
    obtain ⟨rfl, rfl⟩ | ⟨hlt, hnone⟩ := hb
    · rw [if_pos rfl]
      intro c h' hh
      dsimp only at hh ⊢
      by_cases hc : c = ccy
      · subst hc
        rw [Function.update_same, Option.some.injEq] at hh
        exact ⟨m, hh ▸ hm⟩
      · rw [Function.update_noteq hc] at hh
        rw [ExchangeClass.getHistoricalRates_frame hg _ fun he =>
          hc (ExchangeClass.cacheFileName_inj he)]
        exact hi.history_cached c h' hh
    · rw [if_neg (by omega)]
      intro c h' hh
      rw [hnone] at hh
      contradiction
  · exact ⟨hi.ccy_eq, by unfold Bound; trivial, snapshot_of_loop rfl, hi.history_cached⟩

theorem step_inv (hi : t.Inv) {a : FxAction Rate} (hs : t.step a = some t') : t'.Inv := by
  cases a with
  | setEnabled enabled => cases hs; exact ⟨hi.ccy_eq, hi.bound, hi.snapshot, hi.history_cached⟩
  | setHistoryConfig enabled =>
    cases hs
    dsimp only [setHistoryConfig]
    split <;> exact ⟨hi.ccy_eq, hi.bound, hi.snapshot, hi.history_cached⟩
  | setCurrency ccy =>
    cases hs; dsimp only [setCurrency]; split
    · exact ⟨rfl, hi.bound, hi.snapshot, hi.history_cached⟩
    · exact hi
  | setExchange name => cases hs; exact inv_setExchange hi name
  | tick seconds =>
    cases hs
    exact ⟨hi.ccy_eq, hi.bound, hi.snapshot.tick seconds, hi.history_cached⟩
  | wake =>
    obtain ⟨-, rfl⟩ := step_wake hs
    obtain h | ⟨-, h⟩ | h := wake_cases (t := t) <;> rw [h]
    · exact ⟨hi.ccy_eq, hi.bound, hi.snapshot, hi.history_cached⟩
    · exact ⟨hi.ccy_eq, .inl ⟨rfl, rfl⟩, ⟨rfl, le_rfl⟩, hi.history_cached⟩
    · exact ⟨hi.ccy_eq, trivial, snapshot_of_loop rfl, hi.history_cached⟩
  | historyFetched request =>
    obtain ⟨id, cls, ccy, cached, start, hl, rfl⟩ := step_historyFetched hs
    exact inv_historyFetched hi hl request
  | quotesFetched quotes =>
    obtain ⟨id, ccy, -, rfl⟩ := step_quotesFetched hs
    obtain ⟨q, h⟩ := quotesFetched_eq (t := t) id quotes
    rw [h]
    exact ⟨hi.ccy_eq, trivial, snapshot_of_loop rfl, hi.history_cached⟩

theorem Reachable.inv (hr : t.Reachable) : t.Inv := by
  induction hr with
  | init config cacheFiles now => exact inv_init config cacheFiles now
  | step a _ hs ih => exact step_inv ih hs

theorem Reachable.ccy_eq_getCurrency (hr : t.Reachable) : t.ccy = t.getCurrency :=
  hr.inv.ccy_eq

/-- A configuration with exchange rates and their history turned on, and the currency and the
exchange left to their defaults. -/
def sampleFxConfig : FxConfig := ⟨some true, some true, none, none⟩

/-- A cache directory with a CoinGecko table for euros written at time 0. -/
def sampleCacheFiles : CacheDir Nat := fun name =>
  if name = "CoinGecko_EUR" then some ⟨some [("2020-01-01", 150)], 0⟩ else none

/-- The task started a day after that file was written. -/
def sampleFxTask : FxTask Nat := init sampleFxConfig sampleCacheFiles (24 * 3600)

theorem sampleFxTask_ccy_eq_getCurrency :
    sampleFxTask.Reachable ∧ sampleFxTask.ccy = sampleFxTask.getCurrency :=
  ⟨.init _ _ _, Reachable.ccy_eq_getCurrency (.init _ _ _)⟩

end Invariants

/-! ## Runs -/

section Runs

variable {t t' : FxTask Rate}

/-- A property that the steps of the actions satisfying `Q` keep holds after every run of such
actions. -/
theorem runActions_preserves (P : FxTask Rate → Prop) (Q : FxAction Rate → Prop)
    (hstep : ∀ {t t' : FxTask Rate} {a : FxAction Rate}, Q a → P t → t.step a = some t' → P t') :
    ∀ {t t' : FxTask Rate} {as : List (FxAction Rate)}, (∀ a ∈ as, Q a) → P t →
      t.runActions as = some t' → P t'
  | _, _, [], _, hp, h => by
    rw [runActions, Option.some.injEq] at h
    exact h ▸ hp
  | t, _, a :: as, hq, hp, h => by
    rw [runActions] at h
    split at h
    · exact runActions_preserves P Q hstep (fun b hb => hq b (.tail _ hb))
        (hstep (hq a (.head _)) hp ‹_›) h
    · contradiction

theorem Reachable.runActions (hr : t.Reachable) {as : List (FxAction Rate)}
    (h : t.runActions as = some t') : t'.Reachable :=
  runActions_preserves Reachable (fun _ => True) (fun _ hr hs => .step _ hr hs)
    (fun _ _ => trivial) hr h

/-- The file `name` holds `h`, written at `m`, at least a day ago, and a history fetch of the file
under way read it as it is, at least a day after it was written. -/
def StaleFile (t : FxTask Rate) (name : String) (h : RateTable Rate) (m : Int) : Prop :=
  t.cacheFiles name = some ⟨some h, m⟩ ∧ m + 24 * 3600 ≤ t.now ∧
    ∀ id cls c cached start, t.loop = .gettingHistory id cls c cached start →
      cls.cacheFileName c = name → cached = some (h, m) ∧ m + 24 * 3600 ≤ start

/-- A stale file that no fetch under way is to rewrite stays so: a fetch that starts reads it
stale, and one that returns finds it read stale. -/
theorem step_staleFile {a : FxAction Rate} (hs : t.step a = some t') {name : String}
    {h : RateTable Rate} {m : Int} (hst : t.StaleFile name h m) : t'.StaleFile name h m := by
  obtain ⟨hf, hage, hflight⟩ := hst
  cases a with
  | setEnabled enabled => cases hs; exact ⟨hf, hage, hflight⟩
  | setHistoryConfig enabled =>
    cases hs; dsimp only [setHistoryConfig]; split <;> exact ⟨hf, hage, hflight⟩
  | setCurrency ccy => cases hs; dsimp only [setCurrency]; split <;> exact ⟨hf, hage, hflight⟩
  | setExchange name => cases hs; exact ⟨hf, hage, hflight⟩
  | tick seconds => cases hs; exact ⟨hf, by dsimp only; omega, hflight⟩
  | wake =>
    obtain ⟨-, rfl⟩ := step_wake hs
    obtain h | ⟨-, h⟩ | h := wake_cases (t := t) <;> rw [h]
    · exact ⟨hf, hage, hflight⟩
    · refine ⟨hf, hage, fun id cls c cached start hl hn => ?_⟩
      obtain ⟨-, rfl, rfl, rfl, rfl⟩ := RefreshPoint.gettingHistory.inj hl
      exact ⟨ExchangeClass.readHistoricalRates_eq_some.2 (hn ▸ hf), hage⟩
    · exact ⟨hf, hage, fun _ _ _ _ _ hl => nomatch hl⟩
  | historyFetched request =>
    obtain ⟨id, cls, c, cached, start, hl, rfl⟩ := step_historyFetched hs
    refine ⟨?_, by rw [historyFetched_now]; exact hage,
      fun _ _ _ _ _ hl => by rw [historyFetched_loop] at hl; cases hl⟩
    dsimp only [historyFetched]
    split
    · rename_i h' files hg
      by_cases hn : cls.cacheFileName c = name
      · obtain ⟨rfl, hstart⟩ := hflight id cls c cached start hl hn
        rw [ExchangeClass.getHistoricalRates_of_stale hstart, Option.some.injEq,
          Prod.mk.injEq] at hg
        exact hg.2 ▸ hf
      · exact (ExchangeClass.getHistoricalRates_frame hg name (Ne.symm hn)).trans hf
    · exact hf
  | quotesFetched quotes =>
    obtain ⟨id, ccy, -, rfl⟩ := step_quotesFetched hs
    obtain ⟨q, h⟩ := quotesFetched_eq (t := t) id quotes
    rw [h]
    exact ⟨hf, hage, fun _ _ _ _ _ hl => nomatch hl⟩

/-- A cache file a day old, unless a fetch under way read it while it was younger, stays as it is
over every run, and the history of an exchange of its class holds the file's table for its
currency, whatever the network answers. -/
theorem stale_history_cache_frozen (hr : t.Reachable) {cls : ExchangeClass} {ccy : String}
    {h : RateTable Rate} {m : Int}
    (hf : t.cacheFiles (cls.cacheFileName ccy) = some ⟨some h, m⟩) (hage : m + 24 * 3600 ≤ t.now)
    (hflight : ∀ id cls' c cached start, t.loop = .gettingHistory id cls' c cached start →
      cls'.cacheFileName c = cls.cacheFileName ccy → m + 24 * 3600 ≤ start)
    {as : List (FxAction Rate)} (hrun : t.runActions as = some t') :
    t'.cacheFiles (cls.cacheFileName ccy) = some ⟨some h, m⟩ ∧
      (t'.exchange.cls = cls → ∀ h', t'.exchange.history ccy = some h' → h' = h) := by
  have hst : t.StaleFile (cls.cacheFileName ccy) h m := by
    refine ⟨hf, hage, fun id cls' c cached start hl hn => ⟨?_, hflight id cls' c cached start hl hn⟩⟩
    have hsnap := hr.inv.snapshot
    rw [Snapshot, hl] at hsnap
    rw [hsnap.1, ExchangeClass.readHistoricalRates_eq_some.2 (hn ▸ hf)]
  obtain ⟨hf', -⟩ := runActions_preserves (fun t => t.StaleFile (cls.cacheFileName ccy) h m)
    (fun _ => True) (fun _ hp hs => step_staleFile hs hp) (fun _ _ => trivial) hst hrun
  refine ⟨hf', ?_⟩
  rintro rfl h' hh
  obtain ⟨m', hm'⟩ := (hr.runActions hrun).inv.history_cached ccy h' hh
  rw [hf', Option.some.injEq, CacheFile.mk.injEq, Option.some.injEq] at hm'
  exact hm'.1.symm

/-- A pass of the loop on the sample task, the network answering with newer rates. -/
def sampleRefresh : List (FxAction Nat) :=
  [.wake, .historyFetched (some [("2020-01-02", 160)]), .quotesFetched (some [("EUR", 160)])]

theorem sampleFxTask_stale_history_cache_frozen :
    sampleFxTask.Reachable ∧
      sampleFxTask.cacheFiles (ExchangeClass.coinGecko.cacheFileName "EUR") =
        some ⟨some [("2020-01-01", 150)], 0⟩ ∧ 0 + 24 * 3600 ≤ sampleFxTask.now ∧
      (∀ id cls' c cached start, sampleFxTask.loop = .gettingHistory id cls' c cached start →
        cls'.cacheFileName c = ExchangeClass.coinGecko.cacheFileName "EUR" →
        0 + 24 * 3600 ≤ start) ∧
      ∃ t', sampleFxTask.runActions sampleRefresh = some t' ∧
        t'.cacheFiles (ExchangeClass.coinGecko.cacheFileName "EUR") =
          some ⟨some [("2020-01-01", 150)], 0⟩ ∧
        (t'.exchange.cls = .coinGecko →
          ∀ h', t'.exchange.history "EUR" = some h' → h' = [("2020-01-01", 150)]) :=
  have hr : sampleFxTask.Reachable := .init _ _ _
  have hrun : sampleFxTask.runActions sampleRefresh = some _ := rfl
  have hflight : ∀ id cls' c cached start,
      sampleFxTask.loop = .gettingHistory id cls' c cached start →
      cls'.cacheFileName c = ExchangeClass.coinGecko.cacheFileName "EUR" → 0 + 24 * 3600 ≤ start :=
    fun _ _ _ _ _ hl => nomatch hl
  ⟨hr, rfl, by decide, hflight, _, hrun, stale_history_cache_frozen hr rfl (by decide) hflight hrun⟩

/-- The history holds the cached table, not the network's newer one. -/
example : (sampleFxTask.runActions sampleRefresh).map (fun t => t.exchange.history "EUR") =
    some (some [("2020-01-01", 150)]) := by decide

/-- A fetch whose thread read the file while it was an hour old rewrites it, though the file is
two days old when the answer comes. -/
example : ((init sampleFxConfig sampleCacheFiles 3600 : FxTask Nat).runActions
    [.wake, .tick (2 * 24 * 3600), .historyFetched (some [("2020-01-02", 160)])]).map
      (fun t => (t.cacheFiles (ExchangeClass.coinGecko.cacheFileName "EUR")).map (·.mtime)) =
    some (some (3600 + 2 * 24 * 3600)) := by decide

/-- Without a setter that asks for one, no history fetch is asked for or starts. -/
theorem step_fetchHistory {a : FxAction Rate} (ha : a.requestsHistory = false)
    (hs : t.step a = some t') (hf : t.fetchHistory = false)
    (hl : t.loop.isGettingHistory = false) :
    t'.fetchHistory = false ∧ t'.loop.isGettingHistory = false := by
  cases a with
  | setEnabled enabled => cases hs; exact ⟨hf, hl⟩
  | setHistoryConfig enabled =>
    cases hs
    cases ha
    simp only [setHistoryConfig, Bool.and_false, Bool.false_eq_true, if_false]
    exact ⟨hf, hl⟩
  | setCurrency ccy => cases ha
  | setExchange name => cases ha
  | tick seconds => cases hs; exact ⟨hf, hl⟩
  | wake =>
    obtain ⟨-, rfl⟩ := step_wake hs
    obtain h | ⟨hf', -⟩ | h := wake_cases (t := t)
    · rw [h]; exact ⟨hf, hl⟩
    · rw [hf] at hf'; cases hf'
    · rw [h]; exact ⟨hf, rfl⟩
  | historyFetched request =>
    obtain ⟨id, cls, ccy, cached, start, hl', -⟩ := step_historyFetched hs
    rw [hl'] at hl
    cases hl
  | quotesFetched quotes =>
    obtain ⟨id, ccy, -, rfl⟩ := step_quotesFetched hs
    obtain ⟨q, h⟩ := quotesFetched_eq (t := t) id quotes
    rw [h]
    exact ⟨hf, rfl⟩

theorem history_fetch_needs_trigger (hf : t.fetchHistory = false)
    (hl : t.loop.isGettingHistory = false) {as : List (FxAction Rate)}
    (has : ∀ a ∈ as, a.requestsHistory = false) (hrun : t.runActions as = some t') :
    t'.fetchHistory = false ∧ t'.loop.isGettingHistory = false :=
  runActions_preserves (fun t => t.fetchHistory = false ∧ t.loop.isGettingHistory = false)
    (fun a => a.requestsHistory = false) (fun ha hp hs => step_fetchHistory ha hs hp.1 hp.2)
    has ⟨hf, hl⟩ hrun

/-- The sample task after its first history fetch failed. -/
def sampleFailedFetch : FxTask Nat :=
  (sampleFxTask.runActions [.wake, .historyFetched none]).getD sampleFxTask

/-- Passes of the loop with the task enabled again, and no setter that asks for history. -/
def sampleRetries : List (FxAction Nat) :=
  [.quotesFetched none, .tick 150, .wake, .quotesFetched none, .setEnabled true, .wake]

theorem sampleFailedFetch_history_fetch_needs_trigger :
    sampleFailedFetch.fetchHistory = false ∧ sampleFailedFetch.loop.isGettingHistory = false ∧
      (∀ a ∈ sampleRetries, a.requestsHistory = false) ∧
      ∃ t', sampleFailedFetch.runActions sampleRetries = some t' ∧
        t'.fetchHistory = false ∧ t'.loop.isGettingHistory = false :=
  have hf : sampleFailedFetch.fetchHistory = false := rfl
  have hl : sampleFailedFetch.loop.isGettingHistory = false := rfl
  have has : ∀ a ∈ sampleRetries, a.requestsHistory = false := by decide
  have hrun : sampleFailedFetch.runActions sampleRetries = some _ := rfl
  ⟨hf, hl, has, _, hrun, history_fetch_needs_trigger hf hl has hrun⟩

end Runs

end FxTask

/-! ## Exchanges by currency -/

/-- `inv.setdefault(v, []).append(k)`, on a dictionary as its list of entries. -/
def setdefaultAppend (v k : String) : List (String × List String) → List (String × List String)
  | [] => [(v, [k])]
  | (v', ks) :: inv =>
    if v' = v then (v', ks ++ [k]) :: inv else (v', ks) :: setdefaultAppend v k inv

/-- `dictinvert`: from each value in the lists of `d` to the keys whose lists hold it. -/
def dictinvert (d : List (String × List String)) : List (String × List String) :=
  d.foldl (fun inv p => p.2.foldl (fun inv v => setdefaultAppend v p.1 inv) inv) []

/-- `get_exchanges_by_ccy` over `CURRENCIES`, the exchanges by name with their currencies: with
`history`, the `history_ccys` of each exchange's class stand for its currencies, and `none` is
where `globals()[name]` is not an exchange class. -/
def getExchangesByCcy (currencies : List (String × List String)) (history : Bool) :
    Option (List (String × List String)) :=
  if !history then some (dictinvert currencies)
  else (currencies.mapM fun p =>
    (ExchangeClass.ofName? p.1).map fun cls => (p.1, cls.historyCcys)).map dictinvert

/-- `FxTask.get_exchanges_by_ccy`: the exchanges for `ccy`, `[]` where there is none. -/
def FxTask.getExchangesByCcy (currencies : List (String × List String)) (ccy : String) (h : Bool) :
    Option (List String) :=
  (ElectrumSV.getExchangesByCcy currencies h).map fun d => (d.lookup ccy).getD []

/-- The keys of `d` whose lists hold `v`, in the order of `d`: a key once for each time its list
holds `v`. -/
def keysHolding (d : List (String × List String)) (v : String) : List String :=
  d.flatMap fun p => (p.2.filter (· == v)).map fun _ => p.1

/-- `inv` maps each `w` with `L w ≠ []` to `L w`, and has no other key. -/
def Represents (inv : List (String × List String)) (L : String → List String) : Prop :=
  ∀ w, inv.lookup w = if L w = [] then none else some (L w)

section Dictinvert

theorem lookup_cons_ite (w v : String) (ks : List String) (inv : List (String × List String)) :
    ((v, ks) :: inv).lookup w = if w = v then some ks else inv.lookup w := by
  rw [List.lookup_cons]
  split <;> simp_all

theorem lookup_setdefaultAppend (v k w : String) : ∀ inv : List (String × List String),
    (setdefaultAppend v k inv).lookup w =
      if w = v then some ((inv.lookup w).getD [] ++ [k]) else inv.lookup w
  | [] => by by_cases h : w = v <;> simp [setdefaultAppend, lookup_cons_ite, h]
  | (v', ks) :: inv => by
    have ih := lookup_setdefaultAppend v k w inv
    by_cases h₁ : v' = v
    · subst h₁
      by_cases h₂ : w = v' <;> simp [setdefaultAppend, lookup_cons_ite, h₂]
    · by_cases h₂ : w = v
      · subst h₂
        simp [setdefaultAppend, lookup_cons_ite, h₁, Ne.symm h₁, ih]
      · simp [setdefaultAppend, lookup_cons_ite, h₁, h₂, ih]

theorem represents_setdefaultAppend {inv : List (String × List String)}
    {L : String → List String} (h : Represents inv L) (v k : String) :
    Represents (setdefaultAppend v k inv) fun w => if w = v then L w ++ [k] else L w := by
  intro w
  rw [lookup_setdefaultAppend]
  by_cases hw : w = v
  · subst hw
    have hL : (inv.lookup w).getD [] = L w := by rw [h w]; split <;> simp_all
    simp [hL]
  · simp only [hw, if_false, h w]

theorem represents_foldl_setdefaultAppend (k : String) : ∀ (vlist : List String)
    {inv : List (String × List String)} {L : String → List String}, Represents inv L →
    Represents (vlist.foldl (fun inv v => setdefaultAppend v k inv) inv)
      fun w => L w ++ (vlist.filter (· == w)).map fun _ => k
  | [], _, _, h => by simpa [Represents] using h
  | v :: vs, _, L, h => by
    have := represents_foldl_setdefaultAppend k vs (represents_setdefaultAppend h v k)
    intro w
    rw [List.foldl_cons, this w]
    by_cases hw : w = v
    · subst hw; simp
    · simp [hw, Ne.symm hw]

theorem represents_dictinvert (d : List (String × List String)) :
    Represents (dictinvert d) (keysHolding d) := by
  suffices ∀ (d : List (String × List String)) {inv L}, Represents inv L →
      Represents (d.foldl (fun inv p => p.2.foldl (fun inv v => setdefaultAppend v p.1 inv) inv)
        inv) fun w => L w ++ keysHolding d w by
    have h₀ : Represents [] fun _ => [] := fun _ => rfl
    simpa using this d h₀
  intro d
  induction d with
  | nil => intro inv L h; simpa [keysHolding] using h
  | cons p d ih =>
    intro inv L h w
    rw [List.foldl_cons, ih (represents_foldl_setdefaultAppend p.1 p.2 h) w]
    simp only [keysHolding, List.flatMap_cons, List.append_assoc]

theorem dictinvert_lookup (d : List (String × List String)) (v : String) :
    (dictinvert d).lookup v = if keysHolding d v = [] then none else some (keysHolding d v) :=
  represents_dictinvert d v

example : dictinvert [("a", ["x", "y"]), ("b", ["x"])] = [("x", ["a", "b"]), ("y", ["a"])] := by
  decide

theorem getD_lookup_dictinvert (d : List (String × List String)) (v : String) :
    ((dictinvert d).lookup v).getD [] = keysHolding d v := by
  rw [represents_dictinvert d v]
  split <;> simp_all

theorem mem_keysHolding {d : List (String × List String)} {v k : String} :
    k ∈ keysHolding d v ↔ ∃ vs, (k, vs) ∈ d ∧ v ∈ vs := by
  simp only [keysHolding, List.mem_flatMap, List.mem_map, List.mem_filter, beq_iff_eq]
  constructor
  · rintro ⟨⟨k', vs⟩, hkv, v', ⟨hv', rfl⟩, rfl⟩
    exact ⟨vs, hkv, hv'⟩
  · rintro ⟨vs, hkv, hv⟩
    exact ⟨(k, vs), hkv, v, ⟨hv, rfl⟩, rfl⟩

/-- The table `get_exchanges_by_ccy(True)` inverts: each exchange with its `history_ccys`. -/
theorem getExchangesByCcy_history {currencies : List (String × List String)}
    {d : List (String × List String)}
    (hd : (currencies.mapM fun p =>
      (ExchangeClass.ofName? p.1).map fun cls => (p.1, cls.historyCcys)) = some d) :
    d = currencies.map fun p =>
      (p.1, ((ExchangeClass.ofName? p.1).map ExchangeClass.historyCcys).getD []) := by
  simpa using map_of_mapM_eq_some (h := id) (fun p b hb => by
    obtain ⟨cls, hcls, rfl⟩ := Option.map_eq_some'.1 hb
    simp [hcls]) hd

theorem getExchangesByCcy_showHistory {currencies : List (String × List String)} {ccy : String}
    {names : List String} (hd : FxTask.getExchangesByCcy currencies ccy true = some names)
    {name : String} (hname : name ∈ currencies.map Prod.fst) (t : FxTask Rate)
    (hccy : t.ccy = ccy) :
    (t.setExchange name).showHistory =
      (t.isEnabled && t.getHistoryConfig && decide (name ∈ names)) := by
  rw [FxTask.getExchangesByCcy, getExchangesByCcy, if_neg (by decide), Option.map_map] at hd
  obtain ⟨d, hmap, rfl⟩ := Option.map_eq_some'.1 hd
  obtain ⟨q, hq, rfl⟩ := List.mem_map.1 hname
  obtain ⟨cls, hcls⟩ : ∃ cls, ExchangeClass.ofName? q.1 = some cls := by
    obtain ⟨i, hi⟩ := List.mem_iff_getElem?.1 hq
    obtain ⟨b, -, hb⟩ := getElem?_of_mapM_eq_some hmap hi
    obtain ⟨cls, hcls, -⟩ := Option.map_eq_some'.1 hb
    exact ⟨cls, hcls⟩
  have hmem : q.1 ∈ ((dictinvert d).lookup ccy).getD [] ↔ ccy ∈ cls.historyCcys := by
    rw [getD_lookup_dictinvert, mem_keysHolding, getExchangesByCcy_history hmap]
    constructor
    · rintro ⟨vs, hvs, hv⟩
      obtain ⟨p, -, hpe⟩ := List.mem_map.1 hvs
      rw [Prod.mk.injEq] at hpe
      rw [← hpe.2, hpe.1, hcls] at hv
      exact hv
    · intro hv
      exact ⟨_, List.mem_map_of_mem _ hq, by simpa [hcls] using hv⟩
  dsimp only [FxTask.showHistory, FxTask.isEnabled, FxTask.getHistoryConfig, FxTask.setExchange,
    FxTask.triggerHistoryRefresh, Exchange.new]
  rw [hcls, Option.getD_some, hccy]
  split <;> simp [hmem]

/-- Exchanges with their currencies, as `currencies.json` lists them. -/
def sampleCurrencies : List (String × List String) :=
  [("BitPay", ["EUR", "USD"]), ("CoinCap", ["USD"]), ("CoinGecko", ["EUR", "USD"])]

theorem sampleCurrencies_getExchangesByCcy_showHistory :
    FxTask.getExchangesByCcy sampleCurrencies "EUR" true = some ["CoinGecko"] ∧
      "BitPay" ∈ sampleCurrencies.map Prod.fst ∧ FxTask.sampleFxTask.ccy = "EUR" ∧
      (FxTask.sampleFxTask.setExchange "BitPay").showHistory =
        (FxTask.sampleFxTask.isEnabled && FxTask.sampleFxTask.getHistoryConfig &&
          decide ("BitPay" ∈ ["CoinGecko"])) :=
  have hd : FxTask.getExchangesByCcy sampleCurrencies "EUR" true = some ["CoinGecko"] := rfl
  have hname : "BitPay" ∈ sampleCurrencies.map Prod.fst := by decide
  ⟨hd, hname, rfl, getExchangesByCcy_showHistory hd hname FxTask.sampleFxTask rfl⟩

end Dictinvert

end ElectrumSV
