import Mathlib.Data.Char
import Mathlib.Data.List.Lex
import ExchangeServer.Lib.ProducerQueue
import ExchangeServer.Lib.Runs
import ExchangeServer.Lib.SortedSet
import ExchangeServer.QueryReplies

/-!
# The trade history

`MarketDataPublisher.hpp`: the workers push their match records, and the publisher adds
each to the sorted set of its ticker in Redis, with its timestamp as the score and a text
with ticker, price and quantity as the member.  `GetTrendHandler` lists the ten newest
members and reads the prices back out of the texts; the parser for them is not modelled,
what is used of it is that it finds the price in such a text.

The member says nothing about which trade it is, so two trades of one price and quantity
are one member.  `trend_shows_last_trades_iff` says what the reply is worth: it shows the
last ten trades exactly when leaving out the trades that are repeated later makes no
difference to the last ten prices.
-/

namespace ExchangeServer

open Lib

/-! ## Texts -/

/-- `std::to_string`. -/
def decimal (n : ℕ) : List Char :=
  Nat.toDigits 10 n

theorem decimal_injective : Function.Injective decimal := by
  intro m n h
  calc
    m = Nat.ofDigitChars 10 (decimal m) 0 := Nat.ofDigitChars_ten_toDigits.symm
    _ = Nat.ofDigitChars 10 (decimal n) 0 := by rw [h]
    _ = n := Nat.ofDigitChars_ten_toDigits

theorem isDigit_of_mem_decimal {n : ℕ} {c : Char} (h : c ∈ decimal n) : c.isDigit = true :=
  Nat.isDigit_of_mem_toDigits (by decide) (by decide) h

/-- A number is read up to the first character that is not a digit. -/
theorem decimal_append_inj {m n : ℕ} {c : Char} (hc : c.isDigit = false) {r s : List Char}
    (h : decimal m ++ c :: r = decimal n ++ c :: s) : m = n ∧ r = s := by
  have htake : ∀ k r, (decimal k ++ c :: r).takeWhile Char.isDigit = decimal k := by
    intro k r
    rw [List.takeWhile_append_of_pos fun a ha => isDigit_of_mem_decimal ha,
      List.takeWhile_cons_of_neg (by simp [hc]), List.append_nil]
  have hnumber : decimal m = decimal n := by rw [← htake m r, h, htake n s]
  rw [hnumber] at h
  exact ⟨decimal_injective hnumber, List.tail_eq_of_cons_eq (List.append_cancel_left h)⟩

/-- `json_data`, from the ticker, the price and the quantity. -/
def jsonText (tickerId : UInt32) (price qty : UInt64) : List Char :=
  "\x7b\"ticker\":".toList ++ (decimal tickerId.toNat
    ++ (",\"price\":".toList ++ (decimal price.toNat
      ++ (",\"qty\":".toList ++ (decimal qty.toNat ++ "\x7d".toList)))))

/-- `zset_key`. -/
def zsetKey (tickerId : UInt32) : List Char :=
  "history:trade:".toList ++ decimal tickerId.toNat

theorem zsetKey_injective : Function.Injective zsetKey := fun _ _ h =>
  UInt32.toNat_inj.mp (decimal_injective (List.append_cancel_left h))

/-- The text determines price and quantity. -/
theorem jsonText_injective (tickerId : UInt32) :
    Function.Injective fun p : UInt64 × UInt64 => jsonText tickerId p.1 p.2 := by
  rintro ⟨price, qty⟩ ⟨price', qty'⟩ h
  have hprices := List.append_cancel_left (List.append_cancel_left (List.append_cancel_left h))
  obtain ⟨hprice, hrest⟩ := decimal_append_inj (by decide) hprices
  change "\"qty\":".toList ++ _ = "\"qty\":".toList ++ _ at hrest
  obtain ⟨hqty, -⟩ := decimal_append_inj (by decide) (List.append_cancel_left hrest)
  exact Prod.ext (UInt64.toNat_inj.mp hprice) (UInt64.toNat_inj.mp hqty)

/-! ## Publishing -/

/-- The sorted sets in Redis, by their keys. -/
abbrev Redis := UnorderedMap (List Char) (SortedSet (List Char))

namespace Redis

/-- The set of a key, which is empty when there is none. -/
def zset (redis : Redis) (key : List Char) : SortedSet (List Char) :=
  (redis.lookup key).getD ∅

/-- `ZADD`. -/
def zadd (redis : Redis) (key : List Char) (score : ℕ) (member : List Char) : Redis :=
  AList.insert key ((redis.zset key).zadd score member) redis

theorem zset_zadd (redis : Redis) (key key' : List Char) (score : ℕ) (member : List Char) :
    (redis.zadd key score member).zset key'
      = if key' = key then (redis.zset key).zadd score member else redis.zset key' := by
  unfold zset zadd
  rw [UnorderedMap.lookup_insert_eq]
  split_ifs <;> rfl

end Redis

/-- The command sent for a record. -/
def MatchRecord.publish (redis : Redis) (rec : MatchRecord) : Redis :=
  redis.zadd (zsetKey rec.tickerId) rec.timestamp.toNat
    (jsonText rec.tickerId rec.matchPrice rec.matchQuantity)

/-- `MarketDataPublisher`, with the database it writes to. -/
structure MarketDataPublisher where
  queue : ProducerQueue UInt32 MatchRecord
  redis : Redis

/-- What happens to the publisher: the worker of a ticker pushes records, or the publisher
takes the next batch, with or without a connection to Redis. -/
inductive PublisherAction where
  | pushRecords (worker : UInt32) (records : List MatchRecord)
  | publish (picks : List UInt32) (connected : Bool)

namespace MarketDataPublisher

/-- `batch_size`. -/
def batchSize : ℕ := 1000

/-- The publisher as constructed, with no trades in Redis. -/
def new : MarketDataPublisher := ⟨[], ∅⟩

/-- `publishBatchToRedis`: without a connection the batch is dropped. -/
def publishBatchToRedis (connected : Bool) (redis : Redis) (batch : List MatchRecord) : Redis :=
  if connected then batch.foldl MatchRecord.publish redis else redis

/-- **One action.** -/
def step (x : MarketDataPublisher) : PublisherAction → Option MarketDataPublisher
  | .pushRecords worker records => some { x with queue := x.queue.enqueue worker records }
  | .publish picks connected =>
      if picks.length ≤ batchSize then
        (ProducerQueue.dequeueBulk picks x.queue).map fun out =>
          ⟨out.2, publishBatchToRedis connected x.redis out.1⟩
      else none

end MarketDataPublisher

/-- The records pushed, with the workers that pushed them. -/
def pushed (actions : List PublisherAction) : ProducerQueue UInt32 MatchRecord :=
  actions.flatMap fun
    | .pushRecords worker records => records.map (Prod.mk worker)
    | .publish _ _ => []

/-- The action does not fail for want of a connection. -/
def PublisherAction.connected : PublisherAction → Bool
  | .pushRecords _ _ => true
  | .publish _ connected => connected

/-- Every batch found a connection. -/
def Connected (actions : List PublisherAction) : Prop :=
  ∀ a ∈ actions, a.connected = true

instance (actions : List PublisherAction) : Decidable (Connected actions) := by
  unfold Connected
  infer_instance

/-! ## The handler -/

/-- `GetTrendHandler::handle`, where `priceOf` is `json::parse` followed by the access to
`price`; a member that cannot be read is left out. -/
def GetTrendHandler.handle (priceOf : List Char → Option UInt64) (redis : Redis)
    (tickerId : UInt32) : List Byte :=
  trendReply (((redis.zset (zsetKey tickerId)).zrevrange 0 9).filterMap priceOf).reverse

/-! ## What has been published -/

namespace MarketDataPublisher

variable {actions : List PublisherAction} {x : MarketDataPublisher}

/-- The records that have been published are, for every worker, those that it pushed and
that are not in the queue any more. -/
def Published (actions : List PublisherAction) (x : MarketDataPublisher) : Prop :=
  ∃ taken : ProducerQueue UInt32 MatchRecord,
    x.redis = taken.elems.foldl MatchRecord.publish ∅ ∧
    ∀ worker, (pushed actions).ofProducer worker
      = taken.ofProducer worker ++ x.queue.ofProducer worker

theorem runs_published (hrun : runs step new actions = some x) (hconnected : Connected actions) :
    Published actions x := by
  induction actions using List.reverseRecOn generalizing x with
  | nil =>
      obtain rfl := Option.some.inj hrun
      exact ⟨[], rfl, fun _ => rfl⟩
  | append_singleton actions a ih =>
      obtain ⟨y, hy, hlast⟩ := runs_snoc hrun
      obtain ⟨taken, hredis, hqueue⟩ :=
        ih hy fun b hb => hconnected b (List.mem_append_left _ hb)
      have hpushed : pushed (actions ++ [a]) = pushed actions ++ pushed [a] := by simp [pushed]
      cases a with
      | pushRecords worker records =>
          obtain rfl := Option.some.inj hlast
          refine ⟨taken, hredis, fun w => ?_⟩
          rw [hpushed, ProducerQueue.ofProducer_append, hqueue, List.append_assoc]
          refine congrArg (taken.ofProducer w ++ ·) ?_
          rw [← ProducerQueue.ofProducer_append]
          exact congrArg (fun q => ProducerQueue.ofProducer w (y.queue ++ q))
            (List.append_nil _)
      | publish picks connected =>
          have hon : connected = true :=
            hconnected (.publish picks connected) (List.mem_append_right _ (by simp))
          change (if picks.length ≤ batchSize then _ else none) = some x at hlast
          split_ifs at hlast
          obtain ⟨out, hout, rfl⟩ := Option.map_eq_some_iff.mp hlast
          obtain ⟨hlength, hfifo⟩ := ProducerQueue.dequeueBulk_fifo hout
          refine ⟨taken ++ picks.zip out.1, ?_, fun w => ?_⟩
          · have helems : ProducerQueue.elems (taken ++ picks.zip out.1)
                = taken.elems ++ out.1 := by
              rw [ProducerQueue.elems, List.map_append]
              exact congrArg (taken.elems ++ ·) (List.map_snd_zip (Nat.le_of_eq hlength.symm))
            rw [helems, List.foldl_append, ← hredis, hon]
            rfl
          · have hnone : pushed [PublisherAction.publish picks connected] = [] := rfl
            rw [hpushed, hnone, List.append_nil, hqueue, hfifo, ProducerQueue.ofProducer_append,
              List.append_assoc]

/-- The set of a ticker holds what its records have added. -/
theorem zset_foldl_publish (records : List MatchRecord) (redis : Redis) (t : UInt32) :
    (records.foldl MatchRecord.publish redis).zset (zsetKey t)
      = (redis.zset (zsetKey t)).zaddAll ((records.filter fun rec => rec.tickerId = t).map
          fun rec => (jsonText t rec.matchPrice rec.matchQuantity, rec.timestamp.toNat)) := by
  induction records generalizing redis with
  | nil => rfl
  | cons rec records ih =>
      rw [List.foldl_cons, ih]
      unfold MatchRecord.publish
      rw [Redis.zset_zadd]
      by_cases ht : rec.tickerId = t
      · rw [ht, if_pos rfl, List.filter_cons_of_pos (by simpa using ht)]
        rfl
      · rw [if_neg fun h => ht (zsetKey_injective h).symm,
          List.filter_cons_of_neg (by simpa using ht)]

/-- **All published**: the set of a ticker holds the records that its worker has
pushed. -/
theorem runs_zset (hrun : runs step new actions = some x) (hconnected : Connected actions)
    (hworker : ∀ e ∈ pushed actions, e.2.tickerId = e.1) (hdone : x.queue = []) (t : UInt32) :
    x.redis.zset (zsetKey t) = SortedSet.zaddAll ∅ (((pushed actions).ofProducer t).map
      fun rec => (jsonText t rec.matchPrice rec.matchQuantity, rec.timestamp.toNat)) := by
  obtain ⟨taken, hredis, hqueue⟩ := runs_published hrun hconnected
  have htaken : ∀ worker, (pushed actions).ofProducer worker = taken.ofProducer worker := by
    intro worker
    rw [hqueue, hdone]
    exact List.append_nil _
  -- What was taken was pushed, so the worker of a record is that of its ticker.
  have hticker : taken.elems.filter (fun rec => rec.tickerId = t) = taken.ofProducer t := by
    rw [ProducerQueue.elems, List.filter_map, ProducerQueue.ofProducer]
    refine congrArg (List.map Prod.snd) (List.filter_congr fun e he => ?_)
    have hmem : e.2 ∈ taken.ofProducer e.1 := ProducerQueue.mem_ofProducer.mpr he
    rw [← htaken, ProducerQueue.mem_ofProducer] at hmem
    have hticker : e.2.tickerId = e.1 := hworker _ hmem
    simp only [Function.comp_apply, hticker]
  rw [hredis, zset_foldl_publish, hticker, htaken]
  rfl

end MarketDataPublisher

/-! ## What the reply shows -/

theorem trendReply_injective {prices prices' : List UInt64}
    (h : trendReply prices = trendReply prices') : prices = prices' := by
  have hlength : prices.length = prices'.length := by
    have hbytes := congrArg List.length h
    rw [length_trendReply, length_trendReply] at hbytes
    omega
  have hitems : prices.flatMap (fun price => littleEndian 8 price.toNat)
      = prices'.flatMap (fun price => littleEndian 8 price.toNat) := by
    unfold trendReply listReply at h
    rw [hlength] at h
    exact List.append_cancel_left h
  clear h
  induction prices generalizing prices' with
  | nil => exact (List.length_eq_zero_iff.mp hlength.symm).symm
  | cons p prices ih =>
      cases prices' with
      | nil => cases hlength
      | cons p' prices' =>
          rw [List.flatMap_cons, List.flatMap_cons] at hitems
          obtain ⟨hp, hrest⟩ := List.append_inj hitems
            ((length_littleEndian 8 _).trans (length_littleEndian 8 _).symm)
          have hprice : p = p' := by
            rw [← ofLittleEndian_uint64 p, hp, ofLittleEndian_uint64]
          rw [hprice, ih (Nat.succ.inj hlength) hrest]

/-- Price and quantity of a trade. -/
def MatchRecord.priceQty (rec : MatchRecord) : UInt64 × UInt64 :=
  (rec.matchPrice, rec.matchQuantity)

/-- Leaving out the trades whose price and quantity come again later does not change any
of the last ten prices. -/
def RepeatsHarmless (trades : List MatchRecord) : Prop :=
  ∀ i < min 10 trades.length,
    ((trades.map MatchRecord.priceQty).dedup.reverse[i]?).map Prod.fst
      = (trades.reverse[i]?).map MatchRecord.matchPrice

instance (trades : List MatchRecord) : Decidable (RepeatsHarmless trades) := by
  unfold RepeatsHarmless
  infer_instance

theorem repeatsHarmless_iff (trades : List MatchRecord) :
    RepeatsHarmless trades ↔
      ((trades.map MatchRecord.priceQty).dedup.reverse.take 10).map Prod.fst
        = (trades.map MatchRecord.matchPrice).reverse.take 10 := by
  rw [← List.map_reverse, ← List.map_take]
  have hle : (trades.map MatchRecord.priceQty).dedup.length ≤ trades.length :=
    (List.dedup_sublist _).length_le.trans_eq (List.length_map _)
  constructor
  · intro h
    refine List.ext_getElem? fun i => ?_
    rw [List.getElem?_map, List.getElem?_map, List.getElem?_take, List.getElem?_take]
    split_ifs with hten
    · by_cases hi : i < trades.length
      · exact h i (Nat.lt_min.mpr ⟨hten, hi⟩)
      · rw [List.getElem?_eq_none (by rw [List.length_reverse]; omega),
          List.getElem?_eq_none (by rw [List.length_reverse]; omega)]
        rfl
    · rfl
  · intro h i hi
    have hten : i < 10 := (Nat.lt_min.mp hi).1
    have hget := congrArg (fun l : List UInt64 => l[i]?) h
    simp only [List.getElem?_map, List.getElem?_take, if_pos hten] at hget
    exact hget

/-- It is enough that the last ten trades are different. -/
theorem repeatsHarmless_of_nodup {trades : List MatchRecord}
    (h : ((trades.map MatchRecord.priceQty).rtake 10).Nodup) : RepeatsHarmless trades := by
  have hlast := SortedSet.rtake_dedup h
  rw [List.rtake_eq_reverse_take_reverse, List.rtake_eq_reverse_take_reverse,
    List.reverse_inj] at hlast
  rw [repeatsHarmless_iff, hlast, List.map_take, List.map_reverse, List.map_map]
  rfl

/-- For ten trades or less it is also necessary. -/
theorem nodup_of_repeatsHarmless {trades : List MatchRecord} (hfew : trades.length ≤ 10)
    (h : RepeatsHarmless trades) : (trades.map MatchRecord.priceQty).Nodup := by
  rw [repeatsHarmless_iff] at h
  have hlength := congrArg List.length h
  simp only [List.length_map, List.length_take, List.length_reverse] at hlength
  have hle := (List.dedup_sublist (trades.map MatchRecord.priceQty)).length_le
  rw [List.length_map] at hle
  have heq : (trades.map MatchRecord.priceQty).dedup = trades.map MatchRecord.priceQty := by
    refine (List.dedup_sublist _).eq_of_length ?_
    rw [List.length_map]
    omega
  exact List.dedup_eq_self.mp heq

/-- The prices in the reply after all trades of a ticker have been published. -/
theorem prices_of_zset {priceOf : List Char → Option UInt64} {t : UInt32}
    {trades : List MatchRecord}
    (hjson : ∀ rec ∈ trades,
      priceOf (jsonText t rec.matchPrice rec.matchQuantity) = some rec.matchPrice)
    (htime : trades.Pairwise fun rec rec' => rec.timestamp < rec'.timestamp) :
    ((SortedSet.zaddAll ∅ (trades.map fun rec =>
        (jsonText t rec.matchPrice rec.matchQuantity, rec.timestamp.toNat))).zrevrange 0 9).filterMap
      priceOf = ((trades.map MatchRecord.priceQty).dedup.reverse.take 10).map Prod.fst := by
  have hscores : (trades.map fun rec => (jsonText t rec.matchPrice rec.matchQuantity,
      rec.timestamp.toNat)).Pairwise fun e e' => e.2 < e'.2 := List.pairwise_map.mpr htime
  have hmembers : ((trades.map fun rec => (jsonText t rec.matchPrice rec.matchQuantity,
        rec.timestamp.toNat)).map Prod.fst)
      = (trades.map MatchRecord.priceQty).map fun p => jsonText t p.1 p.2 := by
    rw [List.map_map, List.map_map]
    rfl
  -- The sorted set decides equality of its members by their order.
  have hdedup : ∀ inst : DecidableEq (List Char),
      @List.dedup _ inst ((trades.map MatchRecord.priceQty).map fun p => jsonText t p.1 p.2)
        = (trades.map MatchRecord.priceQty).dedup.map fun p => jsonText t p.1 p.2 := fun _ =>
    List.dedup_map_of_injective (jsonText_injective t) _
  rw [SortedSet.zrevrange_zaddAll hscores, hmembers, hdedup, ← List.map_reverse, ← List.map_take,
    List.filterMap_map]
  refine Eq.trans (List.filterMap_congr fun p hp => ?_) (congrFun List.filterMap_eq_map _)
  have hp := List.mem_dedup.mp (List.mem_reverse.mp (List.mem_of_mem_take hp))
  obtain ⟨rec, hrec, rfl⟩ := List.mem_map.mp hp
  exact hjson rec hrec

/-- **When the trend shows the last trades.**  The workers have pushed records of their
tickers, all of them have been published, and the records of the ticker were made at
growing times.  Then the reply lists the prices of the last ten of them if and only if
their repetitions are harmless: for ten trades or less, if and only if no two have the
same price and quantity, and for more, at least when no two of the last ten have. -/
theorem trend_shows_last_trades_iff (priceOf : List Char → Option UInt64)
    (actions : List PublisherAction) (x : MarketDataPublisher) (t : UInt32)
    (hrun : runs MarketDataPublisher.step MarketDataPublisher.new actions = some x)
    (hconnected : Connected actions) (hdone : x.queue = [])
    (hworker : ∀ e ∈ pushed actions, e.2.tickerId = e.1)
    (htime : ((pushed actions).ofProducer t).Pairwise
      fun rec rec' => rec.timestamp < rec'.timestamp)
    (hjson : ∀ rec ∈ (pushed actions).ofProducer t,
      priceOf (jsonText t rec.matchPrice rec.matchQuantity) = some rec.matchPrice) :
    (GetTrendHandler.handle priceOf x.redis t
        = trendReply ((((pushed actions).ofProducer t).map MatchRecord.matchPrice).rtake 10) ↔
      RepeatsHarmless ((pushed actions).ofProducer t)) ∧
    (((((pushed actions).ofProducer t).map MatchRecord.priceQty).rtake 10).Nodup →
      RepeatsHarmless ((pushed actions).ofProducer t)) ∧
    (((pushed actions).ofProducer t).length ≤ 10 →
      (RepeatsHarmless ((pushed actions).ofProducer t) ↔
        (((pushed actions).ofProducer t).map MatchRecord.priceQty).Nodup)) := by
  refine ⟨?_, repeatsHarmless_of_nodup, fun hfew => ⟨nodup_of_repeatsHarmless hfew, fun h => ?_⟩⟩
  · rw [GetTrendHandler.handle, MarketDataPublisher.runs_zset hrun hconnected hworker hdone,
      prices_of_zset hjson htime, repeatsHarmless_iff, List.rtake_eq_reverse_take_reverse]
    constructor
    · intro h
      exact List.reverse_injective (trendReply_injective h)
    · intro h
      rw [h]
  · exact repeatsHarmless_of_nodup (h.sublist (List.drop_sublist _ _))

/-- The number after `"price":`, which is what the parser finds in a text of this
form. -/
def scanPrice : List Char → Option UInt64
  | [] => none
  | c :: rest =>
      if "\"price\":".toList.isPrefixOf (c :: rest) then
        some (UInt64.ofNat
          (Nat.ofDigitChars 10 (((c :: rest).drop 8).takeWhile Char.isDigit) 0))
      else scanPrice rest

/-- A trade of `qty` shares at `price`. -/
def tradeAt (price qty time : UInt64) : MatchRecord :=
  ⟨1, 11, 12, 1, 2, price, price, qty, time⟩

/-- The worker of ticker `1` pushes a batch and all of it is published. -/
def publishAll (records : List MatchRecord) : List PublisherAction :=
  [.pushRecords 1 records, .publish (records.map fun _ => 1) true]

def afterAll (records : List MatchRecord) : MarketDataPublisher :=
  runsTo MarketDataPublisher.step MarketDataPublisher.new (publishAll records)

/-- Two trades of different size at one price. -/
theorem trend_shows_last_trades_sample :
    GetTrendHandler.handle scanPrice (afterAll [tradeAt 100 1 7, tradeAt 100 2 8]).redis 1
      = trendReply [100, 100] := by
  have hresult := trend_shows_last_trades_iff scanPrice
    (publishAll [tradeAt 100 1 7, tradeAt 100 2 8]) _ 1 (runs_eq_runsTo _ (by decide))
    (by decide) (by decide) (by decide) (by decide) (by decide)
  exact hresult.1.mpr (by decide)

/-- Two equal trades are shown as one. -/
theorem equal_trades_shown_once :
    (runs MarketDataPublisher.step MarketDataPublisher.new
      (publishAll [tradeAt 100 1 7, tradeAt 100 1 8])).isSome ∧
    Connected (publishAll [tradeAt 100 1 7, tradeAt 100 1 8]) ∧
    (afterAll [tradeAt 100 1 7, tradeAt 100 1 8]).queue = [] ∧
    GetTrendHandler.handle scanPrice (afterAll [tradeAt 100 1 7, tradeAt 100 1 8]).redis 1
      = trendReply [100] ∧
    GetTrendHandler.handle scanPrice (afterAll [tradeAt 100 1 7, tradeAt 100 1 8]).redis 1
      ≠ trendReply [100, 100] := by
  have hreply : GetTrendHandler.handle scanPrice
      (afterAll [tradeAt 100 1 7, tradeAt 100 1 8]).redis 1 = trendReply [100] := by decide
  refine ⟨by decide, by decide, by decide, hreply, ?_⟩
  rw [hreply]
  decide

end ExchangeServer
