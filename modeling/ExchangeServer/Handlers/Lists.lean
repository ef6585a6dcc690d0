import ExchangeServer.Handlers.Credentials
import ExchangeServer.Handlers.Leaks

/-!
# Lists, sent and read

Four replies list things: a header with a count, and packed items of one size.
`client.cpp` reads them by laying the same structures over the body: if the header is
there, it goes through as many items as the header says, and takes a symbol to be the C
string at its field.

The count has 32 bits and a symbol field 16 bytes, the last of which the server leaves to
the `NUL`, and symbols are listed from `holdings`, whether or not they have a row in
`stocks`.  `lists_decode_iff` says that nothing else gets in the way.
-/

namespace ExchangeServer

open Lib

/-! ## The client -/

/-- `HoldingItem`, as numbers. -/
structure HoldingItem where
  tickerId : ℕ
  quantity : ℕ
deriving DecidableEq, Repr

/-- `OrderItem`, as numbers. -/
structure OrderItem where
  orderId : ℕ
  tickerId : ℕ
  side : ℕ
  price : ℕ
  amount : ℕ
deriving DecidableEq, Repr

/-- `StockItem`. -/
structure StockItem where
  tickerId : ℕ
  symbol : List Byte
deriving DecidableEq, Repr

/-- The structure at a pointer. -/
def HoldingItem.ofBytes (bs : List Byte) : HoldingItem where
  tickerId := readInt bs 0 4
  quantity := readInt bs 4 4

/-- The structure at a pointer. -/
def OrderItem.ofBytes (bs : List Byte) : OrderItem where
  orderId := readInt bs 0 8
  tickerId := readInt bs 8 4
  side := readInt bs 12 1
  price := readInt bs 13 8
  amount := readInt bs 21 8

/-- The structure at a pointer. -/
def StockItem.ofBytes (bs : List Byte) : StockItem where
  tickerId := readInt bs 0 4
  symbol := cString (bs.drop 4)

section Read

variable {α β : Type*} (size : ℕ) (item : List Byte → α)

/-- The loop over the items; `none` when one of them is not in the body. -/
def readItems : ℕ → List Byte → Option (List α)
  | 0, _ => some []
  | count + 1, bs =>
      if bs.length < size then none
      else (readItems count (bs.drop size)).map (item bs :: ·)

/-- A list reply, as the client reads it; `none` when it is not inside the body. -/
def readList (body : List Byte) : Option (List α) :=
  if body.length < 5 then none else readItems size item (readInt body 1 4) (body.drop 5)

variable {size item} {encode : β → List Byte} {value : β → α}

theorem readItems_flatMap (hlength : ∀ b, (encode b).length = size) {bs : List β}
    (hitem : ∀ b ∈ bs, ∀ rest, item (encode b ++ rest) = value b) {count : ℕ}
    (hcount : count ≤ bs.length) :
    readItems size item count (bs.flatMap encode) = some ((bs.take count).map value) := by
  induction bs generalizing count with
  | nil =>
      obtain rfl := Nat.le_zero.mp hcount
      rfl
  | cons b bs ih =>
      cases count with
      | zero => rfl
      | succ count =>
          obtain ⟨hb, hrest⟩ := List.forall_mem_cons.mp hitem
          have hfits : ¬ ((b :: bs).flatMap encode).length < size := by
            rw [List.flatMap_cons, List.length_append, hlength]
            omega
          rw [readItems, if_neg hfits, List.flatMap_cons, List.drop_left' (hlength b),
            ih hrest (Nat.le_of_succ_le_succ hcount), hb]
          rfl

/-- **What the client makes of a list.**  The count is what is left of the length in 32
bits. -/
theorem readList_listReply (hlength : ∀ b, (encode b).length = size) {bs : List β}
    (hitem : ∀ b ∈ bs, ∀ rest, item (encode b ++ rest) = value b) :
    readList size item (listReply encode bs) = some ((bs.take (bs.length % 2 ^ 32)).map value) := by
  have hlong : ¬ (listReply encode bs).length < 5 := by
    rw [length_listReply hlength]
    omega
  have hcount : readInt (listReply encode bs) 1 4 = bs.length % 2 ^ 32 := by
    rw [listReply, listHeader, List.append_assoc]
    refine (readInt_next 1 _ 4 _ _).trans ?_
    rw [UInt32.toNat_ofNat']
    omega
  have hitems : (listReply encode bs).drop 5 = bs.flatMap encode := by
    rw [listReply, List.drop_left']
    rfl
  rw [readList, if_neg hlong, hcount, hitems]
  exact readItems_flatMap hlength hitem (Nat.mod_le _ _)

/-- **A list comes through as long as its length fits the count.** -/
theorem readList_listReply_iff (hlength : ∀ b, (encode b).length = size) {bs : List β}
    (hitem : ∀ b ∈ bs, ∀ rest, item (encode b ++ rest) = value b) :
    readList size item (listReply encode bs) = some (bs.map value) ↔ bs.length < 2 ^ 32 := by
  rw [readList_listReply hlength hitem]
  constructor
  · intro h
    have hlengths := congrArg List.length (Option.some.inj h)
    rw [List.length_map, List.length_map, List.length_take] at hlengths
    omega
  · intro h
    rw [Nat.mod_eq_of_lt h, List.take_length]

end Read

/-! ## The items -/

/-- What a holding with some shares says. -/
def HoldingItem.ofHolding (holding : UInt32 × Int32) : HoldingItem :=
  ⟨holding.1.toNat, holding.2.toInt.toNat⟩

/-- What an active order says. -/
def OrderItem.ofOrder (o : Order) : OrderItem where
  orderId := o.orderId.toNat
  tickerId := o.tickerId.toNat
  side := match o.side with | .buy => 0 | .sell => 1
  price := o.price.toNat
  amount := o.quantity.toNat

theorem HoldingItem.ofBytes_holdingItem {holding : UInt32 × Int32} (hpos : 0 < holding.2)
    (rest : List Byte) :
    HoldingItem.ofBytes (holdingItem holding ++ rest) = HoldingItem.ofHolding holding := by
  have hticker : holding.1.toNat % 256 ^ 4 = holding.1.toNat :=
    Nat.mod_eq_of_lt holding.1.toNat_lt
  have hquantity : holding.2.toUInt32.toNat % 256 ^ 4 = holding.2.toInt.toNat := by
    refine (Nat.mod_eq_of_lt holding.2.toUInt32.toNat_lt).trans ?_
    exact Int32.toNat_toBitVec_of_le (Int32.le_of_lt hpos)
  rw [HoldingItem.ofBytes, holdingItem, List.append_assoc, readInt_head, readInt_next, hticker,
    hquantity]
  rfl

/-- Each field stands behind the ones before it. -/
theorem OrderItem.ofBytes_fields (orderId tickerId side price amount : ℕ) (rest : List Byte) :
    OrderItem.ofBytes (littleEndian 8 orderId ++ (littleEndian 4 tickerId
        ++ (littleEndian 1 side ++ (littleEndian 8 price ++ (littleEndian 8 amount ++ rest)))))
      = ⟨orderId % 256 ^ 8, tickerId % 256 ^ 4, side % 256 ^ 1, price % 256 ^ 8,
          amount % 256 ^ 8⟩ := by
  have hskip : ∀ (offset width : ℕ) (rest : List Byte),
      readInt (littleEndian 8 orderId ++ (littleEndian 4 tickerId ++ rest)) (8 + (4 + offset))
        width = readInt rest offset width := fun offset width rest =>
    (readInt_skip (length_littleEndian 8 _) _ _ width).trans
      (readInt_skip (length_littleEndian 4 _) rest offset width)
  have hside := (hskip 0 1 _).trans (readInt_head 1 side (littleEndian 8 price
    ++ (littleEndian 8 amount ++ rest)))
  have hprice := (hskip 1 8 _).trans (readInt_next 1 side 8 price (littleEndian 8 amount ++ rest))
  have hamount := (hskip 9 8 _).trans ((readInt_skip (length_littleEndian 1 side) _ 8 8).trans
    (readInt_next 8 price 8 amount rest))
  rw [OrderItem.ofBytes, readInt_head, readInt_next, hside, hprice, hamount]

theorem OrderItem.ofBytes_orderItem (o : Order) (rest : List Byte) :
    OrderItem.ofBytes (orderItem o ++ rest) = OrderItem.ofOrder o := by
  have hid : o.orderId.toNat % 256 ^ 8 = o.orderId.toNat := Nat.mod_eq_of_lt o.orderId.toNat_lt
  have hticker : o.tickerId.toNat % 256 ^ 4 = o.tickerId.toNat :=
    Nat.mod_eq_of_lt o.tickerId.toNat_lt
  have hprice : o.price.toNat % 256 ^ 8 = o.price.toNat := Nat.mod_eq_of_lt o.price.toNat_lt
  have hamount : o.quantity.toNat % 256 ^ 8 = o.quantity.toNat :=
    Nat.mod_eq_of_lt o.quantity.toNat_lt
  unfold orderItem OrderItem.ofOrder
  simp only [List.append_assoc]
  rw [OrderItem.ofBytes_fields, hid, hticker, hprice, hamount]
  cases o.side <;> rfl

/-- A C string that is cut and padded with at least one zero. -/
theorem cString_cut {s : List Byte} (h : 0 ∉ s) (n zeros : ℕ) (rest : List Byte) :
    cString (s.take n ++ List.replicate (zeros + 1) 0 ++ rest) = s.take n := by
  have hcut : 0 ∉ s.take n := fun hmem => h (List.mem_of_mem_take hmem)
  rw [List.append_assoc, cString_append_of_notMem hcut, List.replicate_succ, List.cons_append]
  exact List.append_nil _

theorem cString_eq_self {s : List Byte} (h : 0 ∉ s) : cString s = s := by
  have hnul := cString_append_of_notMem h []
  rw [List.append_nil] at hnul
  exact hnul.trans (List.append_nil s)

theorem length_stockItem (stock : UInt32 × List Byte) : (stockItem stock).length = 20 := by
  have hcut : (stock.2.take 15).length ≤ 15 := List.length_take_le 15 stock.2
  rw [stockItem, List.length_append, List.length_append, length_littleEndian,
    List.length_replicate]
  omega

theorem StockItem.ofBytes_stockItem {stock : UInt32 × List Byte} (h : 0 ∉ stock.2)
    (rest : List Byte) :
    StockItem.ofBytes (stockItem stock ++ rest) = ⟨stock.1.toNat, stock.2.take 15⟩ := by
  have hticker : stock.1.toNat % 256 ^ 4 = stock.1.toNat := Nat.mod_eq_of_lt stock.1.toNat_lt
  have hcut : (stock.2.take 15).length ≤ 15 := List.length_take_le 15 stock.2
  have hzeros : 16 - (stock.2.take 15).length = (15 - (stock.2.take 15).length) + 1 := by omega
  rw [StockItem.ofBytes, stockItem, hzeros]
  congr 1
  · rw [List.append_assoc, List.append_assoc]
    exact (readInt_head 4 _ _).trans hticker
  · rw [List.append_assoc, List.append_assoc, List.drop_left' (length_littleEndian 4 _),
      ← List.append_assoc]
    exact cString_cut h 15 _ rest

/-! ## The replies -/

theorem length_strncpy (s : List Byte) (n : ℕ) : (strncpy s n).length = n := by
  rw [strncpy, List.length_append, List.length_take, List.length_replicate]
  omega

/-- An item of `GetAllStocksHandler`: the symbol is cut to 15 bytes, and the last byte of
its field stays zero. -/
theorem read_stockItem (id : UInt32) (symbol : List Byte) :
    ((Memory.zeroed.store 0 (littleEndian 4 id.toNat)).store 4 (strncpy symbol 15)).read 20
      = stockItem (id, cString symbol) := by
  have hlength := length_strncpy symbol 15
  generalize hm : (Memory.zeroed.store 0 (littleEndian 4 id.toNat)).store 4 (strncpy symbol 15) = m
  have hlast : m 19 = 0 := by
    rw [← hm, Memory.store_of_ge _ _ (by rw [hlength]), Memory.store_of_ge _ _ (by simp)]
    rfl
  have hstore : m.store 19 [0] = m := by
    funext i
    rcases Nat.lt_trichotomy i 19 with hlt | rfl | hgt
    · exact m.store_of_lt [0] hlt
    · have hlength : 0 < ([0] : List Byte).length := Nat.one_pos
      exact (m.store_add 19 hlength).trans hlast.symm
    · exact m.store_of_ge [0] hgt
  have hfill : Memory.zeroed.fill 0 [littleEndian 4 id.toNat, strncpy symbol 15, [0]] = m := by
    simp only [Memory.fill, length_littleEndian, hlength, Nat.zero_add, hm]
    exact hstore
  have hpad : 16 - ((cString symbol).take 15).length = (15 - (cString symbol).length) + 1 := by
    rw [List.length_take]
    omega
  rw [← hfill]
  refine Memory.zeroed.read_fill _ ?_ ?_
  · rw [stockItem, hpad, List.replicate_succ']
    simp [strncpy]
  · simp [stockItem]

section Replies

variable (answers : Answers) (locals : Locals) (services : Services) (session : Session)
  (data : List Byte) (reqLen : UInt32)

/-- `GetAllStocksHandler` lists the symbols. -/
theorem GetAllStocksHandler.reply_eq_stocksReply :
    (GetAllStocksHandler.handle answers locals services session).reply
      = stocksReply (answers.getAllStocks.map fun symbol =>
          (symbolToTickerId services.tickers symbol, cString (toBytes symbol))) := by
  show Memory.read _ 5 ++ _ = _
  rw [read_header, stocksReply, listReply, List.length_map, List.flatMap_map]
  refine congrArg (listHeader 1 answers.getAllStocks.length ++ ·) ?_
  rw [List.flatMap_def]
  refine congrArg List.flatten (List.map_congr_left fun symbol _ => ?_)
  exact read_stockItem _ _

theorem GetTrendHandler.reply_eq (hreq : 4 ≤ reqLen) :
    (GetTrendHandler.respond answers services session data reqLen).reply
      = trendReply (GetTrendHandler.prices answers services
          (UInt32.ofNat (readInt data 0 4))) := by
  unfold GetTrendHandler.respond
  rw [if_neg (UInt32.not_lt.mpr hreq)]
  show Memory.read _ 5 ++ _ = _
  rw [read_header]
  rfl

/-- The trend is at most ten prices. -/
theorem GetTrendHandler.length_prices_le (tickerId : UInt32) :
    (GetTrendHandler.prices answers services tickerId).length ≤ 10 := by
  unfold GetTrendHandler.prices
  split_ifs
  · rw [List.length_reverse]
    exact (List.length_filterMap_le _ _).trans (List.length_take_le 10 _)
  · exact Nat.zero_le _

end Replies

/-! ## What the client gets -/

/-- `SELECT DISTINCT symbol FROM holdings`: a symbol has at most 16 bytes and is read as a
C string. -/
def Selected (symbols : List String) : Prop :=
  ∀ symbol ∈ symbols, (toBytes symbol).length ≤ 16 ∧ 0 ∉ toBytes symbol

instance (symbols : List String) : Decidable (Selected symbols) :=
  inferInstanceAs (Decidable (∀ symbol ∈ symbols, (toBytes symbol).length ≤ 16 ∧
    0 ∉ toBytes symbol))

/-- The items are the symbols in full, each with the id of its row. -/
def Names (stocks : List StockRow) (items : List StockItem) (symbols : List String) : Prop :=
  List.Forall₂ (fun item symbol => item.symbol = toBytes symbol ∧
    ∃ stock ∈ stocks, stock.symbol = symbol ∧ item.tickerId = stock.id.toNat) items symbols

/-- The holdings of a user of which there are some shares. -/
def held (services : Services) (session : Session) : List (UInt32 × Int32) :=
  ((services.users.getHoldings session.userId).entries.map fun e => (e.1, e.2)).filter
    fun holding => 0 < holding.2

/-- **The list replies decode to what they encode.** -/
structure ListsDecode (answers : Answers) (locals : Locals) (services : Services)
    (session : Session) (data : List Byte) (reqLen : UInt32) (stocks : List StockRow) :
    Prop where
  holdings : readList 8 HoldingItem.ofBytes
      (GetHoldingsHandler.handle locals services session).reply
    = some ((held services session).map HoldingItem.ofHolding)
  orders : readList 29 OrderItem.ofBytes
      (GetOrdersHandler.handle locals services session).reply
    = some ((services.engine.getUserActiveOrder session.userId).map OrderItem.ofOrder)
  trend : readList 8 (fun bs => readInt bs 0 8)
      (GetTrendHandler.respond answers services session data reqLen).reply
    = some ((GetTrendHandler.prices answers services
        (UInt32.ofNat (readInt data 0 4))).map UInt64.toNat)
  stocks : ∃ items, readList 20 StockItem.ofBytes
      (GetAllStocksHandler.handle answers locals services session).reply = some items ∧
    Names stocks items answers.getAllStocks

section Decode

variable (answers : Answers) (locals : Locals) (services : Services) (session : Session)
  (data : List Byte) {reqLen : UInt32}

theorem readList_holdings_iff (hlogin : session.isLoggedIn = true) :
    readList 8 HoldingItem.ofBytes (GetHoldingsHandler.handle locals services session).reply
        = some ((held services session).map HoldingItem.ofHolding) ↔
      (held services session).length < 2 ^ 32 := by
  rw [GetHoldingsHandler.reply_eq _ _ _ hlogin]
  refine readList_listReply_iff (fun holding => by simp [holdingItem]) fun holding hmem rest => ?_
  have hpos : 0 < holding.2 := by simpa using (List.mem_filter.mp hmem).2
  exact HoldingItem.ofBytes_holdingItem hpos rest

theorem readList_orders_iff (hlogin : session.isLoggedIn = true) :
    readList 29 OrderItem.ofBytes (GetOrdersHandler.handle locals services session).reply
        = some ((services.engine.getUserActiveOrder session.userId).map OrderItem.ofOrder) ↔
      (services.engine.getUserActiveOrder session.userId).length < 2 ^ 32 := by
  rw [GetOrdersHandler.reply_eq _ _ _ hlogin]
  exact readList_listReply_iff (fun o => by simp [orderItem]) fun o _ rest =>
    OrderItem.ofBytes_orderItem o rest

theorem readList_trend (hreq : 4 ≤ reqLen) :
    readList 8 (fun bs => readInt bs 0 8)
        (GetTrendHandler.respond answers services session data reqLen).reply
      = some ((GetTrendHandler.prices answers services
          (UInt32.ofNat (readInt data 0 4))).map UInt64.toNat) := by
  have hshort := GetTrendHandler.length_prices_le answers services (UInt32.ofNat (readInt data 0 4))
  rw [GetTrendHandler.reply_eq _ _ _ _ _ hreq]
  refine (readList_listReply_iff (fun _ => length_littleEndian 8 _) fun price _ rest => ?_).mpr
    (by omega)
  exact (readInt_head 8 price.toNat rest).trans (Nat.mod_eq_of_lt price.toNat_lt)

/-- A listed symbol gets the id of its row. -/
theorem symbolToTickerId_of_mem {db : Database} {stocks rows : List StockRow}
    (schema : Schema db stocks) (hrows : rows.Perm stocks) {stock : StockRow}
    (hstock : stock ∈ stocks) :
    symbolToTickerId (TickerIndex.new.loadAllTickersFromDB (some rows)) stock.symbol
      = stock.id := by
  have hid := TickerIndex.getTickerId_of_mem schema hrows hstock
  have hpos : stock.id ≠ 0 := by
    have hlt := schema.positive stock hstock
    rintro heq
    rw [heq] at hlt
    exact absurd hlt (by decide)
  rw [symbolToTickerId, hid, if_pos hpos]

/-- What the client gets for a symbol. -/
def StockItem.ofSymbol (tickers : TickerIndex) (symbol : String) : StockItem :=
  ⟨(symbolToTickerId tickers symbol).toNat, (toBytes symbol).take 15⟩

theorem readList_stocks (hselected : Selected answers.getAllStocks) :
    readList 20 StockItem.ofBytes
        (GetAllStocksHandler.handle answers locals services session).reply
      = some ((answers.getAllStocks.take (answers.getAllStocks.length % 2 ^ 32)).map
          (StockItem.ofSymbol services.tickers)) := by
  have hcString : ∀ symbol ∈ answers.getAllStocks, cString (toBytes symbol) = toBytes symbol :=
    fun symbol hmem => cString_eq_self (hselected symbol hmem).2
  have hitem : ∀ stock ∈ answers.getAllStocks.map fun symbol =>
      (symbolToTickerId services.tickers symbol, cString (toBytes symbol)), ∀ rest,
      StockItem.ofBytes (stockItem stock ++ rest) = ⟨stock.1.toNat, stock.2.take 15⟩ := by
    intro stock hstock
    obtain ⟨symbol, hmem, rfl⟩ := List.mem_map.mp hstock
    apply StockItem.ofBytes_stockItem
    rw [hcString symbol hmem]
    exact (hselected symbol hmem).2
  rw [GetAllStocksHandler.reply_eq_stocksReply, stocksReply,
    readList_listReply length_stockItem hitem, List.length_map, ← List.map_take, List.map_map]
  refine congrArg some (List.map_congr_left fun symbol hmem => ?_)
  show (⟨_, (cString (toBytes symbol)).take 15⟩ : StockItem) = _
  rw [hcString symbol (List.mem_of_mem_take hmem)]
  rfl

/-- A symbol comes through when it leaves the last byte of its field free, and has a row. -/
theorem ofSymbol_names_iff {db : Database} {stocks rows : List StockRow}
    (schema : Schema db stocks) (hrows : rows.Perm stocks) (symbol : String) :
    ((StockItem.ofSymbol (TickerIndex.new.loadAllTickersFromDB (some rows)) symbol).symbol
        = toBytes symbol ∧
      ∃ stock ∈ stocks, stock.symbol = symbol ∧
        (StockItem.ofSymbol (TickerIndex.new.loadAllTickersFromDB (some rows)) symbol).tickerId
          = stock.id.toNat) ↔
    (toBytes symbol).length ≤ 15 ∧ ∃ stock ∈ stocks, stock.symbol = symbol := by
  refine and_congr (List.take_eq_self_iff _) (exists_congr fun stock => ?_)
  refine and_congr_right fun hstock => and_iff_left_of_imp ?_
  rintro rfl
  exact congrArg UInt32.toNat (symbolToTickerId_of_mem schema hrows hstock)

theorem readList_stocks_iff {db : Database} {stocks rows : List StockRow}
    (schema : Schema db stocks) (hrows : rows.Perm stocks)
    (hloaded : services.tickers = TickerIndex.new.loadAllTickersFromDB (some rows))
    (hselected : Selected answers.getAllStocks) :
    (∃ items, readList 20 StockItem.ofBytes
        (GetAllStocksHandler.handle answers locals services session).reply = some items ∧
      Names stocks items answers.getAllStocks) ↔
    answers.getAllStocks.length < 2 ^ 32 ∧
      ∀ symbol ∈ answers.getAllStocks, (toBytes symbol).length ≤ 15 ∧
        ∃ stock ∈ stocks, stock.symbol = symbol := by
  have hall : Names stocks (answers.getAllStocks.map (StockItem.ofSymbol services.tickers))
        answers.getAllStocks ↔
      ∀ symbol ∈ answers.getAllStocks, (toBytes symbol).length ≤ 15 ∧
        ∃ stock ∈ stocks, stock.symbol = symbol := by
    rw [Names, List.forall₂_map_left_iff, List.forall₂_same, hloaded]
    exact forall₂_congr fun symbol _ => ofSymbol_names_iff schema hrows symbol
  rw [readList_stocks answers locals services session hselected, ← hall]
  constructor
  · rintro ⟨items, hitems, hnames⟩
    obtain rfl := Option.some.inj hitems
    -- An item for each symbol: the count is the length.
    have hlength := hnames.length_eq
    rw [List.length_map, List.length_take] at hlength
    have hlt : answers.getAllStocks.length < 2 ^ 32 := by omega
    rw [Nat.mod_eq_of_lt hlt, List.take_length] at hnames
    exact ⟨hlt, hnames⟩
  · rintro ⟨hlt, hnames⟩
    rw [Nat.mod_eq_of_lt hlt, List.take_length]
    exact ⟨_, rfl, hnames⟩

/-- **When the lists decode.**  The counts have to fit 32 bits, every listed symbol has to
leave the last of its 16 bytes free, and it has to have a row in `stocks`.  Nothing is
asked of the prices, and nothing of the fields of holdings and orders. -/
theorem lists_decode_iff {db : Database} {stocks rows : List StockRow}
    (schema : Schema db stocks) (hrows : rows.Perm stocks)
    (hloaded : services.tickers = TickerIndex.new.loadAllTickersFromDB (some rows))
    (hselected : Selected answers.getAllStocks) (hlogin : session.isLoggedIn = true)
    (hreq : 4 ≤ reqLen) :
    ListsDecode answers locals services session data reqLen stocks ↔
      (held services session).length < 2 ^ 32 ∧
      (services.engine.getUserActiveOrder session.userId).length < 2 ^ 32 ∧
      answers.getAllStocks.length < 2 ^ 32 ∧
      ∀ symbol ∈ answers.getAllStocks, (toBytes symbol).length ≤ 15 ∧
        ∃ stock ∈ stocks, stock.symbol = symbol := by
  have hholdings := readList_holdings_iff locals services session hlogin
  have horders := readList_orders_iff locals services session hlogin
  have hstocks := readList_stocks_iff answers locals services session schema hrows hloaded
    hselected
  constructor
  · intro h
    exact ⟨hholdings.mp h.holdings, horders.mp h.orders, hstocks.mp h.stocks⟩
  · rintro ⟨hheld, hactive, hlisted⟩
    exact ⟨hholdings.mpr hheld, horders.mpr hactive,
      readList_trend answers services session data hreq, hstocks.mpr hlisted⟩

end Decode

/-- A table with one stock. -/
def oneStock (symbol : String) : List StockRow :=
  [⟨1, symbol⟩]

/-- The index knows that stock. -/
def oneStockServices (symbol : String) : Services :=
  { Services.new with
    tickers := TickerIndex.new.loadAllTickersFromDB (some (oneStock symbol)) }

/-- Somebody holds that stock. -/
def oneStockAnswers (symbol : String) : Answers :=
  { Answers.offline with getAllStocks := [symbol] }

theorem schema_oneStock (symbol : String) : Schema ⟨∅, ∅⟩ (oneStock symbol) where
  accountIds _ _ _ _ hrow := absurd hrow (by simp)
  stockIds s hs s' hs' _ := (List.mem_singleton.mp hs).trans (List.mem_singleton.mp hs').symm
  symbols s hs s' hs' _ := (List.mem_singleton.mp hs).trans (List.mem_singleton.mp hs').symm
  positive s hs := by
    rw [List.mem_singleton.mp hs]
    exact UInt32.lt_iff_toNat_lt.mpr Nat.one_pos

theorem lists_decode_iff_sample :
    ListsDecode (oneStockAnswers "AAPL") ⟨Memory.zeroed, fun _ => Memory.zeroed⟩
      (oneStockServices "AAPL") ⟨"root", 1⟩ [1, 0, 0, 0] 4 (oneStock "AAPL") :=
  (lists_decode_iff _ _ _ _ _ (schema_oneStock "AAPL") (List.Perm.refl _) rfl (by decide) rfl
    (by decide)).mpr (by decide)

/-- A symbol of 16 letters fits the column and the field, and comes back with 15. -/
theorem lists_not_decode :
    ∃ (answers : Answers) (locals : Locals) (services : Services) (session : Session)
      (db : Database) (stocks : List StockRow),
      Schema db stocks ∧ services.tickers = TickerIndex.new.loadAllTickersFromDB (some stocks) ∧
      Selected answers.getAllStocks ∧ session.isLoggedIn = true ∧
      (∀ symbol ∈ answers.getAllStocks, ∃ stock ∈ stocks, stock.symbol = symbol) ∧
      ¬ ListsDecode answers locals services session [1, 0, 0, 0] 4 stocks := by
  refine ⟨oneStockAnswers "ABCDEFGHIJKLMNOP", ⟨Memory.zeroed, fun _ => Memory.zeroed⟩,
    oneStockServices "ABCDEFGHIJKLMNOP", ⟨"root", 1⟩, ⟨∅, ∅⟩, oneStock "ABCDEFGHIJKLMNOP",
    schema_oneStock _, rfl, by decide, rfl, by decide, fun h => ?_⟩
  have hlisted := (readList_stocks_iff _ _ _ _ (schema_oneStock "ABCDEFGHIJKLMNOP")
    (List.Perm.refl _) rfl (by decide)).mp h.stocks
  exact absurd (hlisted.2 _ (List.mem_singleton.mpr rfl)).1 (by decide)

end ExchangeServer
