import ExchangeServer.Handler
import ExchangeServer.Lib.Memory
import ExchangeServer.MarketData
import ExchangeServer.Startup

/-!
# The handlers

`Handler.hpp`, from the bytes of a request to the bytes of the reply.  A handler gets a
pointer into the buffer of the session: `data` is what is there from the pointer on, to
the end of the buffer, and `reqLen` is how much of it is the body of the request.

A reply is made in a local structure that holds anything before it is written
(`Locals`).  What repositories, clocks and Redis answer is `Answers`; the calls that a
handler makes of the repositories are listed with what it passes to them.

`GetNewsHandler`, whose reply is drawn at random, is not modelled.
-/

namespace ExchangeServer

open Lib

/-! ## Strings -/

/-- A `std::string` with these bytes. -/
def ofBytes (bs : List Byte) : String :=
  String.ofList (bs.map fun b => Char.ofNat b.toNat)

/-- The bytes of a `std::string`. -/
def toBytes (s : String) : List Byte :=
  s.toList.map fun c => UInt8.ofNat c.toNat

/-- The C string at a pointer: the bytes before the first `NUL`.  Behind the end of a
`std::string` there is one. -/
def cString (memory : List Byte) : List Byte :=
  memory.takeWhile fun b => b ≠ 0

/-- `strncpy(_, s, n)`. -/
def strncpy (s : List Byte) (n : ℕ) : List Byte :=
  (cString s).take n ++ List.replicate (n - (cString s).length) 0

/-! ## What handlers see -/

/-- The parts of the server that handlers use. -/
structure Services where
  users : UserManager
  tickers : TickerIndex
  engine : MatchingEngine
  wal : WALManager
  redis : Redis

/-- What is answered while a request is handled, and what the clocks and the generator
give.  `redisAnswers` says whether Redis answers with an array, and `priceOf` is the
parser for its members. -/
structure Answers where
  checkLogin : String → String → Bool
  registerUser : String → String → Bool
  getUserId : String → UInt64
  updateBalance : String → Int64 → Bool
  getBalance : String → Int64
  getAllStocks : List String
  redisAnswers : Bool
  priceOf : List Char → Option UInt64
  orderId : UInt64
  now : UInt64
  thread : ThreadId

/-- Services that nothing has been put into. -/
def Services.new : Services :=
  ⟨UserManager.new, TickerIndex.new, MatchingEngine.new, WALManager.new none, ∅⟩

/-- The answers when neither the database nor Redis can be reached. -/
def Answers.offline : Answers where
  checkLogin _ _ := false
  registerUser _ _ := false
  getUserId _ := 0
  updateBalance _ _ := false
  getBalance _ := -1
  getAllStocks := []
  redisAnswers := false
  priceOf _ := none
  orderId := 0
  now := 0
  thread := 0

/-- A call of a repository. -/
inductive RepositoryCall where
  | checkLogin (username password : String)
  | registerUser (username password : String)
  | getUserId (username : String)
  | updateBalance (username : String) (amount : Int64)
  | getBalance (username : String)
  | getAllStocks
deriving DecidableEq, Repr

/-- What the local structures of a handler hold before they are written: the response or
the header, and the items of a list. -/
structure Locals where
  res : Memory
  item : ℕ → Memory

/-- What a handler has done. -/
structure Handled where
  reply : List Byte
  session : Session
  services : Services
  calls : List RepositoryCall

/-! ## Requests -/

/-- `sizeof(AuthRequest)`. -/
def AuthRequest.size : UInt32 := 64

/-- `std::string username = req->username`. -/
def AuthRequest.username (data : List Byte) : String :=
  ofBytes (cString data)

/-- `std::string password = req->password`. -/
def AuthRequest.password (data : List Byte) : String :=
  ofBytes (cString (data.drop 32))

/-- A number in the order of the machine. -/
def readInt (data : List Byte) (offset width : ℕ) : ℕ :=
  ofLittleEndian ((data.drop offset).take width)

theorem readInt_append {before field : List Byte} {offset width : ℕ}
    (hoffset : before.length = offset) (hwidth : field.length = width) (after : List Byte) :
    readInt (before ++ (field ++ after)) offset width = ofLittleEndian field := by
  rw [readInt, List.drop_left' hoffset, List.take_left' hwidth]

theorem readInt_skip {field : List Byte} {n : ℕ} (h : field.length = n) (rest : List Byte)
    (offset width : ℕ) :
    readInt (field ++ rest) (n + offset) width = readInt rest offset width := by
  subst h
  rw [readInt, List.drop_length_add_append]
  rfl

/-- A field at the front. -/
theorem readInt_head (width n : ℕ) (rest : List Byte) :
    readInt (littleEndian width n ++ rest) 0 width = n % 256 ^ width := by
  rw [readInt, List.drop_zero, List.take_left' (length_littleEndian width n),
    ofLittleEndian_littleEndian]

/-- A field behind another one. -/
theorem readInt_next (width' n' width n : ℕ) (rest : List Byte) :
    readInt (littleEndian width' n' ++ (littleEndian width n ++ rest)) width' width
      = n % 256 ^ width :=
  (readInt_skip (length_littleEndian width' n') _ 0 width).trans (readInt_head width n rest)

/-- `sizeof(TradeRequest)`. -/
def TradeRequest.size : UInt32 := 17

/-- `reinterpret_cast<const TradeRequest*>(req_s)`. -/
def TradeRequest.ofBytes (data : List Byte) : TradeRequest where
  tickerId := UInt32.ofNat (readInt data 0 4)
  side := UInt8.ofNat (readInt data 4 1)
  price := UInt64.ofNat (readInt data 5 8)
  amount := UInt32.ofNat (readInt data 13 4)

/-- `sizeof(CancelRequest)`. -/
def CancelRequest.size : UInt32 := 12

/-- `reinterpret_cast<const CancelRequest*>(req_data)`. -/
def CancelRequest.ofBytes (data : List Byte) : CancelRequest where
  tickerId := UInt32.ofNat (readInt data 0 4)
  orderId := UInt64.ofNat (readInt data 4 8)

/-! ## The handlers -/

section Handlers

variable (answers : Answers) (locals : Locals) (services : Services) (session : Session)
  (data : List Byte) (reqLen : UInt32)

/-- Nothing is done but to reply. -/
def answer (reply : List Byte) : Handled :=
  ⟨reply, session, services, []⟩

/-- `LoginHandler::handle`. -/
def LoginHandler.handle : Handled :=
  if reqLen < AuthRequest.size then answer services session []
  else
    let username := AuthRequest.username data
    let password := AuthRequest.password data
    let res := locals.res
    if answers.checkLogin username password then
      let cached := services.users.getId username
      let dbId := if cached = 0 then answers.getUserId username else cached
      let users :=
        if cached = 0 ∧ dbId ≠ 0 then services.users.createUserAccount dbId username
        else services.users
      let res := res.store 0 (littleEndian 1 1)
      let res := res.store 1 (littleEndian 8 dbId.toNat)
      { reply := res.read 9
        session := ⟨username, dbId⟩
        services := { services with users := users }
        calls := .checkLogin username password ::
          if cached = 0 then [.getUserId username] else [] }
    else
      let res := res.store 0 (littleEndian 1 0)
      ⟨res.read 9, session, services, [.checkLogin username password]⟩

/-- `RegisterUserHandler::handle`. -/
def RegisterUserHandler.handle : Handled :=
  if reqLen < AuthRequest.size then answer services session []
  else
    let username := AuthRequest.username data
    let password := AuthRequest.password data
    let res := Memory.zeroed
    if answers.registerUser username password then
      let newId := answers.getUserId username
      let res := res.store 0 (littleEndian 1 1)
      let res := res.store 1 (littleEndian 8 newId.toNat)
      { reply := res.read 9
        session := ⟨username, newId⟩
        services := { services with users := services.users.createUserAccount newId username }
        calls := [.registerUser username password, .getUserId username] }
    else
      let res := res.store 0 (littleEndian 1 0)
      ⟨res.read 9, session, services, [.registerUser username password]⟩

/-- `ExitHandler::handle`. -/
def ExitHandler.handle : Handled :=
  let res := Memory.zeroed
  if session.isLoggedIn then
    answer services { session with username := "" } ((res.store 0 (littleEndian 1 1)).read 1)
  else answer services session ((res.store 0 (littleEndian 1 0)).read 1)

/-- `GetBalanceHandler::handle`. -/
def GetBalanceHandler.handle : Handled :=
  let res := Memory.zeroed
  if session.isLoggedIn then
    let res := res.store 0 (littleEndian 1 1)
    let res :=
      res.store 1 (littleEndian 8 (services.users.getBalance session.userId).toUInt64.toNat)
    answer services session (res.read 9)
  else answer services session ((res.store 0 (littleEndian 1 0)).read 9)

/-- `symbolToTickerId`. -/
def symbolToTickerId (tickers : TickerIndex) (symbol : String) : UInt32 :=
  if tickers.getTickerId symbol ≠ 0 then tickers.getTickerId symbol else 999

/-- `GetAllStocksHandler::handle`. -/
def GetAllStocksHandler.handle : Handled :=
  let stocks := answers.getAllStocks
  let header := locals.res
  let header := header.store 0 (littleEndian 1 1)
  let header := header.store 1 (littleEndian 4 (UInt32.ofNat stocks.length).toNat)
  let items := stocks.map fun sym =>
    let item := Memory.zeroed
    let item := item.store 0 (littleEndian 4 (symbolToTickerId services.tickers sym).toNat)
    let item := item.store 4 (strncpy (toBytes sym) 15)
    item.read 20
  ⟨header.read 5 ++ items.flatten, session, services, [.getAllStocks]⟩

/-- `DepositHandler::handle`. -/
def DepositHandler.handle : Handled :=
  let res := Memory.zeroed
  if session.isLoggedIn then
    if reqLen < 8 then answer services session []
    else
      let amount := (UInt64.ofNat (readInt data 0 8)).toInt64
      if amount ≤ 0 then answer services session ((res.store 0 (littleEndian 1 0)).read 9)
      else if answers.updateBalance session.username amount then
        let res := res.store 0 (littleEndian 1 1)
        let res :=
          res.store 1 (littleEndian 8 (answers.getBalance session.username).toUInt64.toNat)
        { reply := res.read 9
          session := session
          services := { services with users := services.users.addBalance session.userId amount }
          calls := [.updateBalance session.username amount, .getBalance session.username] }
      else
        ⟨(res.store 0 (littleEndian 1 0)).read 9, session, services,
          [.updateBalance session.username amount]⟩
  else answer services session ((res.store 0 (littleEndian 1 0)).read 9)

/-- `TradeHandler::handle`. -/
def TradeHandler.handle : Handled :=
  let res := Memory.zeroed
  if session.isLoggedIn then
    if reqLen < TradeRequest.size then answer services session []
    else
      let req := TradeRequest.ofBytes data
      let order := req.order session answers.orderId answers.now
      let frozen := req.freeze services.users session
      if frozen.2 then
        { reply := (res.store 0 (littleEndian 1 1)).read 1
          session := session
          services := { services with
            users := frozen.1
            wal := services.wal.appendOrder answers.thread order }
          calls := [] }
      else
        ⟨(res.store 0 (littleEndian 1 0)).read 1, session, { services with users := frozen.1 },
          []⟩
  else answer services session ((res.store 0 (littleEndian 1 0)).read 1)

/-- `GetHoldingsHandler::handle`. -/
def GetHoldingsHandler.handle : Handled :=
  let header := Memory.zeroed
  if session.isLoggedIn then
    let holdings := services.users.getHoldings session.userId
    let held := (holdings.entries.map fun e => (e.1, e.2)).filter fun holding => 0 < holding.2
    let items := held.mapIdx fun i holding =>
      let item := locals.item i
      let item := item.store 0 (littleEndian 4 holding.1.toNat)
      let item := item.store 4 (littleEndian 4 holding.2.toUInt32.toNat)
      item.read 8
    let header := header.store 0 (littleEndian 1 1)
    let header := header.store 1 (littleEndian 4 (UInt32.ofNat items.length).toNat)
    answer services session (header.read 5 ++ items.flatten)
  else answer services session ((header.store 0 (littleEndian 1 0)).read 5)

/-- `GetMarketHandler::handle`. -/
def GetMarketHandler.handle : Handled :=
  let res := Memory.zeroed
  if reqLen < 4 then answer services session []
  else
    let tickerId := UInt32.ofNat (readInt data 0 4)
    let best := services.engine.getBestBidOffer tickerId.toUInt64 (0, 0)
    let res := res.store 0 (littleEndian 1 1)
    let res := res.store 1 (littleEndian 8 best.1.toUInt64.toNat)
    let res := res.store 9 (littleEndian 8 best.2.toUInt64.toNat)
    answer services session (res.read 17)

/-- The prices that `GetTrendHandler::handle` lists. -/
def GetTrendHandler.prices (tickerId : UInt32) : List UInt64 :=
  if answers.redisAnswers then
    (((services.redis.zset (zsetKey tickerId)).zrevrange 0 9).filterMap answers.priceOf).reverse
  else []

/-- `GetTrendHandler::handle`, from the request on. -/
def GetTrendHandler.respond : Handled :=
  let header := Memory.zeroed
  if reqLen < 4 then answer services session []
  else
    let prices := GetTrendHandler.prices answers services (UInt32.ofNat (readInt data 0 4))
    let header := header.store 0 (littleEndian 1 1)
    let header := header.store 1 (littleEndian 4 (UInt32.ofNat prices.length).toNat)
    answer services session
      (header.read 5 ++ prices.flatMap fun price => littleEndian 8 price.toNat)

/-- `GetOrdersHandler::handle`. -/
def GetOrdersHandler.handle : Handled :=
  let header := Memory.zeroed
  if session.isLoggedIn then
    let items := (services.engine.getUserActiveOrder session.userId).mapIdx fun i o =>
      let item := locals.item i
      let item := item.store 0 (littleEndian 8 o.orderId.toNat)
      let item := item.store 8 (littleEndian 4 o.tickerId.toNat)
      let item := item.store 12 (littleEndian 1 (if o.side = .buy then 0 else 1))
      let item := item.store 13 (littleEndian 8 o.price.toNat)
      let item := item.store 21 (littleEndian 8 o.quantity.toNat)
      item.read 29
    let header := header.store 0 (littleEndian 1 1)
    let header := header.store 1 (littleEndian 4 (UInt32.ofNat items.length).toNat)
    answer services session (header.read 5 ++ items.flatten)
  else answer services session ((header.store 0 (littleEndian 1 0)).read 5)

/-- `CancelOrderHandler::handle`. -/
def CancelOrderHandler.handle : Handled :=
  let res := Memory.zeroed
  if session.isLoggedIn then
    if reqLen < CancelRequest.size then answer services session []
    else
      { reply := (res.store 0 (littleEndian 1 1)).read 1
        session := session
        services := { services with
          wal := (CancelRequest.ofBytes data).handle session answers.thread services.wal }
        calls := [] }
  else answer services session ((res.store 0 (littleEndian 1 0)).read 1)

end Handlers

/-! ## The router -/

/-- The requests that have a handler, without `NEWS_REQ`. -/
inductive MsgType where
  | register
  | login
  | logout
  | deposit
  | balance
  | trade
  | cancel
  | holdings
  | market
  | orders
  | trend
  | allStocks
deriving DecidableEq, Repr

/-- The value on the wire. -/
def MsgType.code : MsgType → UInt16
  | register => 1001
  | login => 1003
  | logout => 1005
  | deposit => 2001
  | balance => 2003
  | trade => 3001
  | cancel => 3003
  | holdings => 4001
  | market => 4003
  | orders => 4005
  | trend => 4007
  | allStocks => 4011

/-- `Router::dispatch` for a type that has a handler. -/
def Router.dispatch (type : MsgType) (answers : Answers) (locals : Locals) (services : Services)
    (session : Session) (data : List Byte) (reqLen : UInt32) : Handled :=
  match type with
  | .register => RegisterUserHandler.handle answers services session data reqLen
  | .login => LoginHandler.handle answers locals services session data reqLen
  | .logout => ExitHandler.handle services session
  | .deposit => DepositHandler.handle answers services session data reqLen
  | .balance => GetBalanceHandler.handle services session
  | .trade => TradeHandler.handle answers services session data reqLen
  | .cancel => CancelOrderHandler.handle answers services session data reqLen
  | .holdings => GetHoldingsHandler.handle locals services session
  | .market => GetMarketHandler.handle services session data reqLen
  | .orders => GetOrdersHandler.handle locals services session
  | .trend => GetTrendHandler.respond answers services session data reqLen
  | .allStocks => GetAllStocksHandler.handle answers locals services session

end ExchangeServer
