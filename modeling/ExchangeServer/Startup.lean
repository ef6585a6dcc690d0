import ExchangeServer.AccountMoves

/-!
# Start-up

`main` fills the two caches from the database before it starts anything else:
`UserManager::loadAllFromDB` and then `TickerManager::loadAllTickersFromDB`.  A query
returns the rows of its result in any order, and no rows at all when it fails; the
columns are read with `stoull` and `stoll`, which read back what MySQL prints, so rows
are typed.

The first loader asks the second cache for the ticker of each holding.  At that moment
the second cache is empty and every ticker is `0`, so every holding is skipped:
`startup_loads_iff` says that the accounts are loaded and that the holdings are as they
should be exactly when there are none.  `holdingsLoaded_loadAllFromDB` says that nothing else is
wrong: after the tickers are loaded, the same loader loads the holdings as well.
-/

namespace ExchangeServer

open Lib

/-! ## Queries -/

/-- A row of `SELECT id, username, balance FROM accounts`. -/
structure AccountTuple where
  id : UInt64
  username : String
  balance : Int64
deriving DecidableEq, Repr

/-- A row of `SELECT a.id, h.symbol, h.quantity FROM holdings h JOIN accounts a`. -/
structure HoldingTuple where
  id : UInt64
  symbol : String
  quantity : Int32
deriving DecidableEq, Repr

/-- A row of `stocks`. -/
structure StockRow where
  id : UInt32
  symbol : String
deriving DecidableEq, Repr

namespace Database

/-- `SELECT id, username, balance FROM accounts`. -/
def selectAccounts (db : Database) : List AccountTuple :=
  db.accounts.entries.map fun e => ⟨e.2.id, e.1, e.2.balance⟩

/-- `SELECT a.id, h.symbol, h.quantity FROM holdings h JOIN accounts a ON h.username =
a.username`. -/
def selectHoldings (db : Database) : List HoldingTuple :=
  db.holdings.entries.flatMap fun h =>
    (db.accounts.entries.filter fun a => a.1 = h.1.1).map fun a => ⟨a.2.id, h.1.2, h.2⟩

variable {db : Database}

theorem mem_selectAccounts {r : AccountTuple} :
    r ∈ db.selectAccounts ↔ db.accounts.lookup r.username = some ⟨r.id, r.balance⟩ := by
  unfold selectAccounts
  rw [List.mem_map, ← UnorderedMap.mem_entries_iff]
  constructor
  · rintro ⟨e, he, rfl⟩
    exact he
  · intro h
    exact ⟨_, h, rfl⟩

theorem mem_selectHoldings {r : HoldingTuple} :
    r ∈ db.selectHoldings ↔ ∃ name row, db.accounts.lookup name = some row ∧ row.id = r.id ∧
      db.holdings.lookup (name, r.symbol) = some r.quantity := by
  unfold selectHoldings
  rw [List.mem_flatMap]
  constructor
  · rintro ⟨h, hh, hr⟩
    obtain ⟨⟨name, row⟩, ha, rfl⟩ := List.mem_map.mp hr
    obtain ⟨hrow, hname⟩ := List.mem_filter.mp ha
    obtain ⟨⟨username, symbol⟩, quantity⟩ := h
    obtain rfl : name = username := by simpa using hname
    exact ⟨name, row, (UnorderedMap.mem_entries_iff ..).mp hrow, rfl,
      (UnorderedMap.mem_entries_iff ..).mp hh⟩
  · rintro ⟨name, row, hrow, hid, hholding⟩
    refine ⟨⟨(name, r.symbol), r.quantity⟩, (UnorderedMap.mem_entries_iff ..).mpr hholding, ?_⟩
    refine List.mem_map.mpr ⟨⟨name, row⟩, List.mem_filter.mpr ⟨?_, by simp⟩, ?_⟩
    · exact (UnorderedMap.mem_entries_iff ..).mpr hrow
    · rw [hid]

end Database

/-! ## The loaders -/

/-- `TickerManager` with both of its maps; when the server runs, only `id_to_symbol_` is
read. -/
structure TickerIndex extends TickerManager where
  symbolToId : UnorderedMap String UInt32

namespace TickerIndex

/-- The manager as constructed. -/
def new : TickerIndex := ⟨⟨∅⟩, ∅⟩

/-- `TickerManager::getTickerId`. -/
def getTickerId (m : TickerIndex) (symbol : String) : UInt32 :=
  match m.symbolToId.lookup symbol with
  | none => 0
  | some id => id

/-- The body of the loop of `loadAllTickersFromDB`. -/
def loadTicker (m : TickerIndex) (row : StockRow) : TickerIndex where
  symbolToId := AList.insert row.symbol row.id m.symbolToId
  idToSymbol := AList.insert row.id row.symbol m.idToSymbol

/-- `TickerManager::loadAllTickersFromDB`. -/
def loadAllTickersFromDB (m : TickerIndex) : Option (List StockRow) → TickerIndex
  | none => m
  | some rows => rows.foldl loadTicker m

end TickerIndex

namespace UserManager

/-- The body of the first loop of `loadAllFromDB`. -/
def loadAccount (m : UserManager) (row : AccountTuple) : UserManager :=
  let b := m.bucket (idToMtx row.id)
  ⟨Function.update m.bucket (idToMtx row.id)
    { findAccount := AList.insert row.username row.id b.findAccount
      account := AList.insert row.id
        { UserAccount.new row.id row.username with availableBalance := row.balance } b.account }⟩

/-- The body of its second loop. -/
def loadHolding (tickers : TickerIndex) (m : UserManager) (row : HoldingTuple) : UserManager :=
  let tickerId := tickers.getTickerId row.symbol
  if tickerId ≠ 0 then
    if m.HasAccount row.id then
      m.modifyAccount row.id fun acc =>
        { acc with availableStock := acc.availableStock.update tickerId fun _ => row.quantity }
    else m
  else m

/-- `UserManager::loadAllFromDB`, with the results of its two queries. -/
def loadAllFromDB (m : UserManager) (tickers : TickerIndex)
    (accounts : Option (List AccountTuple)) (holdings : Option (List HoldingTuple)) :
    UserManager :=
  let m := accounts.elim m fun rows => rows.foldl loadAccount m
  holdings.elim m fun rows => rows.foldl (loadHolding tickers) m

/-- `UserManager::getId`: the buckets are searched in order. -/
def getId (m : UserManager) (username : String) : UInt64 :=
  match (List.finRange 256).findSome? fun i => (m.bucket i).findAccount.lookup username with
  | none => 0
  | some uid => read 0 UserAccount.userId m uid

/-- `UserManager::getHoldings`. -/
def getHoldings (m : UserManager) (uid : UInt64) : StockMap :=
  match m.getAccount uid with
  | none => ∅
  | some acc => acc.availableStock

end UserManager

/-- The caches as `main` fills them. -/
def initialise (accounts : Option (List AccountTuple)) (holdings : Option (List HoldingTuple))
    (stocks : Option (List StockRow)) : UserManager × TickerIndex :=
  let tickers := TickerIndex.new
  let users := UserManager.new.loadAllFromDB tickers accounts holdings
  (users, tickers.loadAllTickersFromDB stocks)

/-! ## What is loaded -/

/-- The constraints of the schema that the tables do not carry themselves: ids of accounts
and of stocks and symbols of stocks are unique, and ids of stocks are positive. -/
structure Schema (db : Database) (stocks : List StockRow) : Prop where
  accountIds : ∀ name row name' row', db.accounts.lookup name = some row →
    db.accounts.lookup name' = some row' → row.id = row'.id → name = name'
  stockIds : ∀ s ∈ stocks, ∀ s' ∈ stocks, s.id = s'.id → s = s'
  symbols : ∀ s ∈ stocks, ∀ s' ∈ stocks, s.symbol = s'.symbol → s = s'
  positive : ∀ s ∈ stocks, 0 < s.id

/-- The accounts are in the cache. -/
def AccountsLoaded (db : Database) (users : UserManager) : Prop :=
  ∀ name row, db.accounts.lookup name = some row →
    users.getBalance row.id = row.balance ∧ users.getName row.id = name ∧
      users.getId name = row.id

/-- The holdings are in the cache. -/
def HoldingsLoaded (db : Database) (stocks : List StockRow) (users : UserManager) : Prop :=
  ∀ name row, db.accounts.lookup name = some row → ∀ stock ∈ stocks,
    (users.getHoldings row.id).get stock.id
      = (db.holdings.lookup (name, stock.symbol)).getD 0

namespace UserManager

/-- The account of a row of `accounts`. -/
def accountOf (row : AccountTuple) : UserAccount :=
  { UserAccount.new row.id row.username with availableBalance := row.balance }

theorem getAccount_loadAccount (m : UserManager) (row : AccountTuple) (uid : UInt64) :
    (m.loadAccount row).getAccount uid =
      if some row.id = some uid then some (accountOf row) else m.getAccount uid := by
  unfold getAccount loadAccount
  by_cases hb : idToMtx uid = idToMtx row.id
  · rw [hb]
    simp only [Function.update_self]
    refine (UnorderedMap.lookup_insert_eq _ row.id uid _).trans ?_
    simp only [Option.some.injEq, eq_comm]
    rfl
  · have hne : some row.id ≠ some uid := fun h => hb (Option.some.inj h ▸ rfl)
    rw [if_neg hne]
    simp only [Function.update_of_ne hb]

/-- The entry of a name in a bucket. -/
def findIn (m : UserManager) (k : Fin 256 × String) : Option UInt64 :=
  (m.bucket k.1).findAccount.lookup k.2

theorem findIn_loadAccount (m : UserManager) (row : AccountTuple) (k : Fin 256 × String) :
    (m.loadAccount row).findIn k =
      if some (idToMtx row.id, row.username) = some k then some row.id else m.findIn k := by
  obtain ⟨i, name⟩ := k
  unfold findIn loadAccount
  by_cases hi : i = idToMtx row.id
  · subst hi
    simp only [Function.update_self]
    refine (UnorderedMap.lookup_insert_eq _ row.username name _).trans ?_
    simp only [Option.some.injEq, Prod.mk.injEq, true_and, eq_comm]
  · have hne : some (idToMtx row.id, row.username) ≠ some (i, name) := fun h =>
      hi (congrArg Prod.fst (Option.some.inj h)).symm
    rw [if_neg hne]
    simp only [Function.update_of_ne hi]

variable {db : Database} {stocks : List StockRow} {rows : List AccountTuple}
  {name : String} {row : AccountRow}

/-- Every account is found by its id. -/
theorem getAccount_foldl_loadAccount (schema : Schema db stocks)
    (hrows : rows.Perm db.selectAccounts) (hrow : db.accounts.lookup name = some row) :
    (rows.foldl loadAccount new).getAccount row.id
      = some (accountOf ⟨row.id, name, row.balance⟩) := by
  have hassigns : Assigns (fun _ => True) loadAccount getAccount
      (fun r => some r.id) (fun r => some (accountOf r)) :=
    ⟨fun _ _ _ => trivial, fun m r uid _ => getAccount_loadAccount m r uid⟩
  have hmem : ⟨row.id, name, row.balance⟩ ∈ rows :=
    hrows.mem_iff.mpr (Database.mem_selectAccounts.mpr hrow)
  refine hassigns.get_foldl trivial (fun r hr hid => ?_) (Or.inl ⟨_, hmem, rfl⟩)
  have hr := Database.mem_selectAccounts.mp (hrows.mem_iff.mp hr)
  have hid : r.id = row.id := Option.some.inj hid
  obtain rfl := schema.accountIds _ _ _ _ hr hrow hid
  obtain rfl := Option.some.inj (hr.symm.trans hrow)
  rfl

/-- Every account is found by its name, in the bucket of its id and in no other. -/
theorem findSome_foldl_loadAccount (hrows : rows.Perm db.selectAccounts)
    (hrow : db.accounts.lookup name = some row) :
    ((List.finRange 256).findSome? fun i => (rows.foldl loadAccount new).findIn (i, name))
      = some row.id := by
  have hassigns : Assigns (fun _ => True) loadAccount findIn
      (fun r => some (idToMtx r.id, r.username)) (fun r => some r.id) :=
    ⟨fun _ _ _ => trivial, fun m r k _ => findIn_loadAccount m r k⟩
  have hmem : ⟨row.id, name, row.balance⟩ ∈ rows :=
    hrows.mem_iff.mpr (Database.mem_selectAccounts.mpr hrow)
  -- A row of this name is the row of the account.
  have hunique : ∀ r ∈ rows, r.username = name → r.id = row.id := by
    rintro r hr rfl
    have hr := Database.mem_selectAccounts.mp (hrows.mem_iff.mp hr)
    exact congrArg AccountRow.id (Option.some.inj (hr.symm.trans hrow))
  have hfind : ∀ i, (rows.foldl loadAccount new).findIn (i, name)
      = if i = idToMtx row.id then some row.id else none := by
    intro i
    refine hassigns.get_foldl trivial (fun r hr hkey => ?_) ?_
    · obtain ⟨rfl, hname⟩ := Prod.mk.inj (Option.some.inj hkey)
      rw [hunique r hr hname, if_pos rfl]
    · split_ifs with hi
      · exact Or.inl ⟨_, hmem, by rw [hi]⟩
      · exact Or.inr rfl
  cases hsome : (List.finRange 256).findSome? fun i =>
      (rows.foldl loadAccount new).findIn (i, name) with
  | none =>
      have hnone := List.findSome?_eq_none_iff.mp hsome (idToMtx row.id) (List.mem_finRange _)
      rw [hfind, if_pos rfl] at hnone
      cases hnone
  | some uid =>
      obtain ⟨i, -, hi⟩ := List.exists_of_findSome?_eq_some hsome
      rw [hfind] at hi
      split_ifs at hi
      exact hi.symm

/-! ## Holdings -/

section Holdings

variable (tickers : TickerIndex) {α : Type*}

/-- What a holding does not change. -/
theorem foldl_loadHolding_same (g : UserManager → α)
    (hg : ∀ m uid t f, g (m.modifyAccount uid fun acc =>
      { acc with availableStock := acc.availableStock.update t f }) = g m)
    (rows : List HoldingTuple) (m : UserManager) : g (rows.foldl (loadHolding tickers) m) = g m := by
  induction rows generalizing m with
  | nil => rfl
  | cons r rows ih =>
      rw [List.foldl_cons, ih]
      unfold loadHolding
      simp only
      split_ifs
      · exact hg m _ _ _
      · rfl
      · rfl

/-- A field of an account that is not `available_stock`. -/
theorem read_foldl_loadHolding (d : α) (f : UserAccount → α)
    (hf : ∀ (acc : UserAccount) s, f { acc with availableStock := s } = f acc)
    (rows : List HoldingTuple) (m : UserManager) (uid : UInt64) :
    read d f (rows.foldl (loadHolding tickers) m) uid = read d f m uid :=
  foldl_loadHolding_same tickers (fun m => read d f m uid)
    (fun m uid' _ _ => read_modifyAccount_same d f m uid' uid fun acc => hf acc _) rows m

theorem findIn_foldl_loadHolding (rows : List HoldingTuple) (m : UserManager)
    (k : Fin 256 × String) : (rows.foldl (loadHolding tickers) m).findIn k = m.findIn k := by
  refine foldl_loadHolding_same tickers (fun m => m.findIn k) (fun m uid t f => ?_) rows m
  unfold findIn modifyAccount
  by_cases hi : k.1 = idToMtx uid
  · simp only [hi, Function.update_self]
  · simp only [Function.update_of_ne hi]

/-- The entry that a holding sets. -/
def holdingKey (m : UserManager) (row : HoldingTuple) : Option (UInt64 × UInt32) :=
  if tickers.getTickerId row.symbol ≠ 0 ∧ m.HasAccount row.id then
    some (row.id, tickers.getTickerId row.symbol)
  else none

theorem assigns_loadHolding (m₀ : UserManager) :
    Assigns (fun m => ∀ uid, m.HasAccount uid ↔ m₀.HasAccount uid) (loadHolding tickers)
      (fun m k => m.availableStock k.1 k.2) (m₀.holdingKey tickers) HoldingTuple.quantity := by
  refine ⟨fun m r hm uid => ?_, fun m r k hm => ?_⟩
  · unfold loadHolding
    simp only
    split_ifs
    · exact (hasAccount_modifyAccount ..).trans (hm uid)
    · exact hm uid
    · exact hm uid
  · obtain ⟨uid, t⟩ := k
    by_cases hset : tickers.getTickerId r.symbol ≠ 0 ∧ m.HasAccount r.id
    · have hkey : m₀.holdingKey tickers r = some (r.id, tickers.getTickerId r.symbol) :=
        if_pos ⟨hset.1, (hm r.id).mp hset.2⟩
      have hload : loadHolding tickers m r = m.modifyAccount r.id fun acc => { acc with
          availableStock := acc.availableStock.update (tickers.getTickerId r.symbol)
            fun _ => r.quantity } := by
        unfold loadHolding
        rw [if_pos hset.1, if_pos hset.2]
      obtain ⟨acc, hacc⟩ := Option.isSome_iff_exists.mp hset.2
      rw [hkey, hload]
      unfold availableStock
      rw [read_modifyAccount]
      by_cases huid : uid = r.id
      · subst huid
        rw [if_pos rfl, read_of_getAccount _ _ hacc, read_of_getAccount _ _ hacc]
        refine (StockMap.get_update ..).trans ?_
        simp only [Option.some.injEq, Prod.mk.injEq, true_and, eq_comm]
      · have hne : some (r.id, tickers.getTickerId r.symbol) ≠ some (uid, t) := fun h =>
          huid (congrArg Prod.fst (Option.some.inj h)).symm
        rw [if_neg huid, if_neg hne]
    · have hkey : m₀.holdingKey tickers r = none :=
        if_neg fun h => hset ⟨h.1, (hm r.id).mpr h.2⟩
      have hload : loadHolding tickers m r = m := by
        unfold loadHolding
        simp only
        split_ifs with hticker hacc
        · exact absurd ⟨hticker, hacc⟩ hset
        · rfl
        · rfl
      rw [hkey, hload, if_neg (by simp)]

end Holdings

theorem getBalance_eq_read (m : UserManager) (uid : UInt64) :
    m.getBalance uid = read 0 UserAccount.availableBalance m uid := by
  unfold getBalance read
  cases m.getAccount uid <;> rfl

theorem get_getHoldings (m : UserManager) (uid : UInt64) (t : UInt32) :
    (m.getHoldings uid).get t = m.availableStock uid t := by
  unfold getHoldings availableStock read
  cases m.getAccount uid <;> rfl

end UserManager

namespace TickerIndex

variable {stocks rows : List StockRow}

theorem lookup_loadTicker (m : TickerIndex) (row : StockRow) (symbol : String) :
    (m.loadTicker row).symbolToId.lookup symbol
      = if some row.symbol = some symbol then some row.id else m.symbolToId.lookup symbol := by
  refine (UnorderedMap.lookup_insert_eq ..).trans ?_
  simp only [Option.some.injEq, eq_comm]

theorem assigns_loadTicker :
    Assigns (fun _ => True) loadTicker (fun m symbol => m.symbolToId.lookup symbol)
      (fun row => some row.symbol) (fun row => some row.id) :=
  ⟨fun _ _ _ => trivial, fun m row symbol _ => lookup_loadTicker m row symbol⟩

/-- The ticker of a listed symbol. -/
theorem getTickerId_of_mem {db : Database} (schema : Schema db stocks) (hrows : rows.Perm stocks)
    {stock : StockRow} (hstock : stock ∈ stocks) :
    (new.loadAllTickersFromDB (some rows)).getTickerId stock.symbol = stock.id := by
  have hlookup : (rows.foldl loadTicker new).symbolToId.lookup stock.symbol = some stock.id := by
    refine assigns_loadTicker.get_foldl trivial (fun r hr hsymbol => ?_)
      (Or.inl ⟨stock, hrows.mem_iff.mpr hstock, rfl⟩)
    rw [schema.symbols r (hrows.mem_iff.mp hr) stock hstock (Option.some.inj hsymbol)]
  show (match (rows.foldl loadTicker new).symbolToId.lookup stock.symbol with
    | none => 0
    | some id => id) = stock.id
  rw [hlookup]

/-- A symbol that has a ticker is listed. -/
theorem exists_of_getTickerId {symbol : String} (hrows : rows.Perm stocks)
    (h : (new.loadAllTickersFromDB (some rows)).getTickerId symbol ≠ 0) :
    ∃ stock ∈ stocks, stock.symbol = symbol := by
  by_contra hnone
  have hlookup : (rows.foldl loadTicker new).symbolToId.lookup symbol = none := by
    refine assigns_loadTicker.get_foldl trivial (fun r hr hsymbol => ?_) (Or.inr rfl)
    exact absurd ⟨r, hrows.mem_iff.mp hr, Option.some.inj hsymbol⟩ hnone
  apply h
  show (match (rows.foldl loadTicker new).symbolToId.lookup symbol with
    | none => 0
    | some id => id) = 0
  rw [hlookup]

end TickerIndex

/-! ## The result -/

section Result

variable {db : Database} {stocks : List StockRow} {accountRows : List AccountTuple}
  {holdingRows : List HoldingTuple} {stockRows : List StockRow}

/-- **The accounts are loaded**, whatever the ticker cache and the second query give. -/
theorem accountsLoaded_loadAllFromDB (schema : Schema db stocks)
    (haccounts : accountRows.Perm db.selectAccounts) (tickers : TickerIndex)
    (holdingRows : List HoldingTuple) :
    AccountsLoaded db
      (UserManager.new.loadAllFromDB tickers (some accountRows) (some holdingRows)) := by
  intro name row hrow
  have hacc := UserManager.getAccount_foldl_loadAccount schema haccounts hrow
  have hread : ∀ {α : Type} (d : α) (f : UserAccount → α),
      (∀ (acc : UserAccount) s, f { acc with availableStock := s } = f acc) →
      UserManager.read d f
          (UserManager.new.loadAllFromDB tickers (some accountRows) (some holdingRows)) row.id
        = f (UserManager.accountOf ⟨row.id, name, row.balance⟩) := fun d f hf =>
    (UserManager.read_foldl_loadHolding tickers d f hf holdingRows _ row.id).trans
      (UserManager.read_of_getAccount d f hacc)
  refine ⟨?_, ?_, ?_⟩
  · rw [UserManager.getBalance_eq_read]
    exact hread 0 UserAccount.availableBalance fun _ _ => rfl
  · rw [UserManager.getName_eq_read]
    exact hread "UNKNOWN" UserAccount.username fun _ _ => rfl
  · have hfind : ((List.finRange 256).findSome? fun i => (UserManager.new.loadAllFromDB tickers
        (some accountRows) (some holdingRows)).findIn (i, name)) = some row.id := by
      refine Eq.trans ?_ (UserManager.findSome_foldl_loadAccount haccounts hrow)
      exact congrArg (fun f => (List.finRange 256).findSome? f)
        (funext fun i => UserManager.findIn_foldl_loadHolding tickers holdingRows _ (i, name))
    unfold UserManager.findIn at hfind
    unfold UserManager.getId
    rw [hfind]
    exact hread 0 UserAccount.userId fun _ _ => rfl

/-- An account that has been loaded holds nothing yet. -/
theorem availableStock_foldl_loadAccount (schema : Schema db stocks)
    (haccounts : accountRows.Perm db.selectAccounts) {name : String} {row : AccountRow}
    (hrow : db.accounts.lookup name = some row) (t : UInt32) :
    (accountRows.foldl UserManager.loadAccount UserManager.new).availableStock row.id t = 0 := by
  have hacc := UserManager.getAccount_foldl_loadAccount schema haccounts hrow
  exact UserManager.read_of_getAccount _ _ hacc

/-- **With the tickers loaded first, the holdings are loaded.** -/
theorem holdingsLoaded_loadAllFromDB (schema : Schema db stocks)
    (haccounts : accountRows.Perm db.selectAccounts)
    (hholdings : holdingRows.Perm db.selectHoldings) (hstocks : stockRows.Perm stocks) :
    HoldingsLoaded db stocks
      (UserManager.new.loadAllFromDB (TickerIndex.new.loadAllTickersFromDB (some stockRows))
        (some accountRows) (some holdingRows)) := by
  intro name row hrow stock hstock
  rw [UserManager.get_getHoldings]
  have hacc : (accountRows.foldl UserManager.loadAccount UserManager.new).HasAccount row.id := by
    rw [UserManager.HasAccount, UserManager.getAccount_foldl_loadAccount schema haccounts hrow]
    rfl
  have hid := TickerIndex.getTickerId_of_mem schema hstocks hstock
  have hpositive : stock.id ≠ 0 := (UInt32.ne_of_lt (schema.positive stock hstock)).symm
  refine (UserManager.assigns_loadHolding _ _).get_foldl (k := (row.id, stock.id))
    (fun _ => Iff.rfl) (fun r hr hkey => ?_) ?_
  · unfold UserManager.holdingKey at hkey
    split_ifs at hkey with hset
    obtain ⟨hrid, hticker⟩ := Prod.mk.inj (Option.some.inj hkey)
    obtain ⟨name', row', hrow', hid', hholding⟩ :=
      Database.mem_selectHoldings.mp (hholdings.mem_iff.mp hr)
    obtain rfl := schema.accountIds _ _ _ _ hrow' hrow (hid'.trans hrid)
    obtain ⟨stock', hstock', hsymbol⟩ := TickerIndex.exists_of_getTickerId hstocks hset.1
    rw [← hsymbol, TickerIndex.getTickerId_of_mem schema hstocks hstock'] at hticker
    obtain rfl := schema.stockIds stock' hstock' stock hstock hticker
    rw [hsymbol, hholding]
    rfl
  · cases hholding : db.holdings.lookup (name, stock.symbol) with
    | none => exact Or.inr (availableStock_foldl_loadAccount schema haccounts hrow stock.id)
    | some q =>
        refine Or.inl ⟨⟨row.id, stock.symbol, q⟩, ?_, ?_⟩
        · exact hholdings.mem_iff.mpr
            (Database.mem_selectHoldings.mpr ⟨name, row, hrow, rfl, hholding⟩)
        · unfold UserManager.holdingKey
          rw [hid, if_pos ⟨hpositive, hacc⟩]

/-- With an empty ticker cache, every holding is skipped. -/
theorem availableStock_initialise (schema : Schema db stocks)
    (haccounts : accountRows.Perm db.selectAccounts) {name : String} {row : AccountRow}
    (hrow : db.accounts.lookup name = some row) (t : UInt32) :
    (initialise (some accountRows) (some holdingRows) (some stockRows)).1.availableStock row.id t
      = 0 := by
  refine (UserManager.assigns_loadHolding TickerIndex.new _).get_foldl (k := (row.id, t))
    (fun _ => Iff.rfl) (fun r hr hkey => ?_)
    (Or.inr (availableStock_foldl_loadAccount schema haccounts hrow t))
  unfold UserManager.holdingKey at hkey
  split_ifs at hkey with hset
  exact absurd rfl hset.1

end Result

/-- **When `main` loads the database**: exactly when no account of the database holds any
shares of a listed stock.  The accounts themselves are always loaded, and what the
queries for holdings and stocks return makes no difference. -/
theorem startup_loads_iff (db : Database) (stocks : List StockRow) (schema : Schema db stocks)
    (accountRows : List AccountTuple) (holdingRows : List HoldingTuple)
    (stockRows : List StockRow) (haccounts : accountRows.Perm db.selectAccounts) :
    (AccountsLoaded db
        (initialise (some accountRows) (some holdingRows) (some stockRows)).1 ∧
      HoldingsLoaded db stocks
        (initialise (some accountRows) (some holdingRows) (some stockRows)).1) ↔
    ∀ name row, db.accounts.lookup name = some row → ∀ stock ∈ stocks, ∀ q,
      db.holdings.lookup (name, stock.symbol) = some q → q = 0 := by
  constructor
  · rintro ⟨-, hloaded⟩ name row hrow stock hstock q hq
    have hholding := hloaded name row hrow stock hstock
    rw [UserManager.get_getHoldings, availableStock_initialise schema haccounts hrow, hq]
      at hholding
    exact hholding.symm
  · intro hnothing
    refine ⟨accountsLoaded_loadAllFromDB schema haccounts _ _, ?_⟩
    intro name row hrow stock hstock
    rw [UserManager.get_getHoldings, availableStock_initialise schema haccounts hrow]
    cases hq : db.holdings.lookup (name, stock.symbol) with
    | none => rfl
    | some q => exact (hnothing name row hrow stock hstock q hq).symm

/-- Nobody holds anything of the one listed stock. -/
def emptyDb : Database where
  accounts := [⟨"alice", ⟨1, 5⟩⟩, ⟨"bob", ⟨2, 0⟩⟩].toAList
  holdings := ∅

def sampleStocks : List StockRow := [⟨1, "AAPL"⟩]

theorem sampleSchema {db : Database} (h : db.accounts = emptyDb.accounts) :
    Schema db sampleStocks := by
  refine ⟨fun name row name' row' hrow hrow' hid => ?_, ?_, ?_, ?_⟩
  · rw [h, ← UnorderedMap.mem_entries_iff] at hrow hrow'
    have hentries : ∀ e ∈ emptyDb.accounts.entries, ∀ e' ∈ emptyDb.accounts.entries,
        e.2.id = e'.2.id → e.1 = e'.1 := by decide
    exact hentries _ hrow _ hrow' hid
  · decide
  · decide
  · decide

theorem startup_loads_sample :
    AccountsLoaded emptyDb
      (initialise (some emptyDb.selectAccounts) (some emptyDb.selectHoldings)
        (some sampleStocks)).1 := by
  refine ((startup_loads_iff emptyDb sampleStocks (sampleSchema rfl) _ _ _
    (List.Perm.refl _)).mpr ?_).1
  intro name row hrow stock hstock q hq
  cases hq

/-- Bob's ten shares are lost at start-up. -/
theorem startup_drops_holdings :
    Schema sampleDb sampleStocks ∧
    sampleDb.accounts.lookup "bob" = some ⟨2, 0⟩ ∧
    sampleDb.holdings.lookup ("bob", "AAPL") = some 10 ∧
    ((initialise (some sampleDb.selectAccounts) (some sampleDb.selectHoldings)
      (some sampleStocks)).1.getHoldings 2).get 1 = 0 ∧
    ¬ HoldingsLoaded sampleDb sampleStocks
      (initialise (some sampleDb.selectAccounts) (some sampleDb.selectHoldings)
        (some sampleStocks)).1 := by
  have hbob : sampleDb.accounts.lookup "bob" = some ⟨2, 0⟩ := by decide
  refine ⟨sampleSchema rfl, hbob, by decide, by decide, fun hloaded => ?_⟩
  have hholding := hloaded "bob" ⟨2, 0⟩ hbob ⟨1, "AAPL"⟩ (by decide)
  revert hholding
  decide

end ExchangeServer
