import ExchangeServer.Handlers.Basic

/-!
# Whom a request touches

`Effect` lists what a request can do beside its reply, one case for each way through the
handlers that changes anything.  What follows from it: a request on a connection that is
not logged in touches no account that exists and no log (`untouched_of_not_loggedIn`),
and one on a connection that is logged in acts as the user of the session and as nobody
else (`actsAs_dispatch`).
-/

namespace ExchangeServer

open Lib

/-! ## Effects -/

section Effects

variable (type : MsgType) (answers : Answers) (services : Services) (session : Session)
  (data : List Byte) (reqLen : UInt32)

/-- A registration that the repository carries out. -/
def Registers : Prop :=
  type = .register ∧ AuthRequest.size ≤ reqLen ∧
    answers.registerUser (AuthRequest.username data) (AuthRequest.password data) = true

/-- A login with credentials that the repository knows. -/
def LogsIn : Prop :=
  type = .login ∧ AuthRequest.size ≤ reqLen ∧
    answers.checkLogin (AuthRequest.username data) (AuthRequest.password data) = true

instance : Decidable (Registers type answers data reqLen) := by
  unfold Registers
  infer_instance

instance : Decidable (LogsIn type answers data reqLen) := by
  unfold LogsIn
  infer_instance

/-- The id that a login puts into the session: the cached one, or else that of the
database. -/
def loginId (users : UserManager) (username : String) : UInt64 :=
  if users.getId username = 0 then answers.getUserId username else users.getId username

/-- The cache after a login. -/
def loginUsers (users : UserManager) (username : String) : UserManager :=
  if users.getId username = 0 ∧ loginId answers users username ≠ 0 then
    users.createUserAccount (loginId answers users username) username
  else users

/-- The session and the services after a request. -/
inductive Effect : Session → Services → Prop where
  | nothing : Effect session services
  | login (h : LogsIn type answers data reqLen) :
      Effect ⟨AuthRequest.username data,
          loginId answers services.users (AuthRequest.username data)⟩
        { services with users := loginUsers answers services.users (AuthRequest.username data) }
  | register (h : Registers type answers data reqLen) :
      Effect ⟨AuthRequest.username data, answers.getUserId (AuthRequest.username data)⟩
        { services with
          users := services.users.createUserAccount
            (answers.getUserId (AuthRequest.username data)) (AuthRequest.username data) }
  | logout (h : session.isLoggedIn = true) : Effect { session with username := "" } services
  | deposit (h : session.isLoggedIn = true) (amount : Int64) :
      Effect session { services with users := services.users.addBalance session.userId amount }
  | accepted (h : session.isLoggedIn = true) :
      Effect session { services with
        users := ((TradeRequest.ofBytes data).freeze services.users session).1
        wal := services.wal.appendOrder answers.thread
          ((TradeRequest.ofBytes data).order session answers.orderId answers.now) }
  | refused (h : session.isLoggedIn = true) :
      Effect session { services with
        users := ((TradeRequest.ofBytes data).freeze services.users session).1 }
  | cancel (h : session.isLoggedIn = true) :
      Effect session { services with
        wal := services.wal.appendCancel answers.thread (CancelRequest.ofBytes data).tickerId
          (CancelRequest.ofBytes data).orderId session.userId }

/-- **Every request has one of these effects.** -/
theorem dispatch_effect (locals : Locals) :
    Effect type answers services session data reqLen
      (Router.dispatch type answers locals services session data reqLen).session
      (Router.dispatch type answers locals services session data reqLen).services := by
  cases type with
  | register =>
      simp only [Router.dispatch, RegisterUserHandler.handle]
      split_ifs with hshort hok
      · exact .nothing
      · exact .register ⟨rfl, UInt32.not_lt.mp hshort, hok⟩
      · exact .nothing
  | login =>
      simp only [Router.dispatch]
      unfold LoginHandler.handle
      by_cases hshort : reqLen < AuthRequest.size
      · rw [if_pos hshort]
        exact .nothing
      · rw [if_neg hshort]
        dsimp only
        by_cases hok : answers.checkLogin (AuthRequest.username data) (AuthRequest.password data)
        · rw [if_pos hok]
          exact .login ⟨rfl, UInt32.not_lt.mp hshort, hok⟩
        · rw [if_neg hok]
          exact .nothing
  | logout =>
      simp only [Router.dispatch, ExitHandler.handle]
      split_ifs with hlogin
      · exact .logout hlogin
      · exact .nothing
  | deposit =>
      simp only [Router.dispatch, DepositHandler.handle]
      split_ifs with hlogin
      · exact .nothing
      · exact .nothing
      · exact .deposit hlogin _
      · exact .nothing
      · exact .nothing
  | trade =>
      simp only [Router.dispatch, TradeHandler.handle]
      split_ifs with hlogin
      · exact .nothing
      · exact .accepted hlogin
      · exact .refused hlogin
      · exact .nothing
  | cancel =>
      simp only [Router.dispatch, CancelOrderHandler.handle]
      split_ifs with hlogin
      · exact .nothing
      · have hcancel : (CancelRequest.ofBytes data).handle session answers.thread services.wal
            = services.wal.appendCancel answers.thread (CancelRequest.ofBytes data).tickerId
              (CancelRequest.ofBytes data).orderId session.userId := if_pos hlogin
        rw [hcancel]
        exact .cancel hlogin
      · exact .nothing
  | balance =>
      simp only [Router.dispatch, GetBalanceHandler.handle]
      split_ifs <;> exact .nothing
  | holdings =>
      simp only [Router.dispatch, GetHoldingsHandler.handle]
      split_ifs <;> exact .nothing
  | orders =>
      simp only [Router.dispatch, GetOrdersHandler.handle]
      split_ifs <;> exact .nothing
  | market =>
      simp only [Router.dispatch, GetMarketHandler.handle]
      split_ifs <;> exact .nothing
  | trend =>
      simp only [Router.dispatch, GetTrendHandler.respond]
      split_ifs <;> exact .nothing
  | allStocks => exact .nothing

end Effects

/-! ## Other accounts -/

namespace UserManager

/-- An operation on one account leaves the others. -/
theorem getAccount_modifyAccount_of_ne (m : UserManager) {uid u : UInt64} (hne : u ≠ uid)
    (f : UserAccount → UserAccount) : (m.modifyAccount uid f).getAccount u = m.getAccount u := by
  rw [getAccount_modifyAccount, if_neg hne]

/-- A new account leaves those that exist. -/
theorem getAccount_createUserAccount_of_hasAccount {m : UserManager} {u : UInt64}
    (h : m.HasAccount u) (uid : UInt64) (name : String) :
    (m.createUserAccount uid name).getAccount u = m.getAccount u := by
  rw [getAccount_createUserAccount]
  refine if_neg ?_
  rintro ⟨rfl, hnone⟩
  rw [HasAccount, hnone] at h
  cases h

/-- A freeze is an operation on the assets of the account of the session, or nothing. -/
theorem freeze_cases (m : UserManager) (req : TradeRequest) (session : Session) :
    (req.freeze m session).1 = m ∨ ∃ f : UserAccount → UserAccount,
      (∀ acc, (f acc).userId = acc.userId ∧ (f acc).username = acc.username) ∧
        (req.freeze m session).1 = m.modifyAccount session.userId f := by
  unfold TradeRequest.freeze tryFreezeBalance tryFreezeStock
  cases req.orderSide with
  | buy =>
      cases m.getAccount session.userId with
      | none => exact Or.inl rfl
      | some acc =>
          dsimp only
          split_ifs
          · exact Or.inr ⟨UserAccount.freezeBalance req.totalCost, fun _ => ⟨rfl, rfl⟩, rfl⟩
          · exact Or.inl rfl
  | sell =>
      cases m.getAccount session.userId with
      | none => exact Or.inl rfl
      | some acc =>
          dsimp only
          split_ifs
          · exact Or.inr ⟨UserAccount.freezeStock req.tickerId req.amount.toInt32,
              fun _ => ⟨rfl, rfl⟩, rfl⟩
          · -- A refused sell leaves the entry that `operator[]` has made.
            exact Or.inr ⟨UserAccount.touchStock req.tickerId, fun _ => ⟨rfl, rfl⟩, rfl⟩

/-- A freeze leaves the accounts of other users. -/
theorem getAccount_freeze_of_ne (m : UserManager) (req : TradeRequest) {session : Session}
    {u : UInt64} (hne : u ≠ session.userId) :
    (req.freeze m session).1.getAccount u = m.getAccount u := by
  rcases freeze_cases m req session with heq | ⟨f, -, heq⟩
  · rw [heq]
  · rw [heq]
    exact getAccount_modifyAccount_of_ne m hne f

/-- Whether a freeze succeeds depends on one account. -/
theorem freeze_congr {m m' : UserManager} (req : TradeRequest) {session : Session}
    (h : m'.getAccount session.userId = m.getAccount session.userId) :
    (req.freeze m' session).2 = (req.freeze m session).2 := by
  unfold TradeRequest.freeze tryFreezeBalance tryFreezeStock
  rw [h]
  cases req.orderSide with
  | buy =>
      cases m.getAccount session.userId with
      | none => rfl
      | some acc =>
          dsimp only
          split_ifs <;> rfl
  | sell =>
      cases m.getAccount session.userId with
      | none => rfl
      | some acc =>
          dsimp only
          split_ifs <;> rfl

end UserManager

/-! ## Who acts -/

/-- The user an event is for. -/
def EngineEvent.userId : EngineEvent → UInt64
  | newOrder order => order.userId
  | cancelOrder _ _ cancelUserId => cancelUserId

/-- No account that exists has changed, and nothing has been logged. -/
structure Untouched (services services' : Services) : Prop where
  accounts : ∀ u, services.users.HasAccount u →
    services'.users.getAccount u = services.users.getAccount u
  wal : services'.wal = services.wal

/-- Only the account of `uid` has changed, and what has been logged is for `uid`. -/
structure ActsAs (uid : UInt64) (services services' : Services) : Prop where
  accounts : ∀ u, services.users.HasAccount u → u ≠ uid →
    services'.users.getAccount u = services.users.getAccount u
  wal : services'.wal = services.wal ∨ ∃ thread event, event.userId = uid ∧
    services'.wal = { services.wal with queue := services.wal.queue.enqueue thread [event] }

theorem Untouched.refl (services : Services) : Untouched services services :=
  ⟨fun _ _ => rfl, rfl⟩

theorem Untouched.actsAs {services services' : Services} (h : Untouched services services')
    (uid : UInt64) : ActsAs uid services services' :=
  ⟨fun u hu _ => h.accounts u hu, Or.inl h.wal⟩

section Who

variable (type : MsgType) (answers : Answers) (locals : Locals) (services : Services)
  {session : Session} (data : List Byte) (reqLen : UInt32)

theorem untouched_loginUsers (username : String) :
    Untouched services
      { services with users := loginUsers answers services.users username } := by
  refine ⟨fun u hu => ?_, rfl⟩
  show (loginUsers answers services.users username).getAccount u = _
  unfold loginUsers
  split_ifs
  · exact UserManager.getAccount_createUserAccount_of_hasAccount hu _ _
  · rfl

theorem untouched_createUserAccount (uid : UInt64) (username : String) :
    Untouched services
      { services with users := services.users.createUserAccount uid username } :=
  ⟨fun _ hu => UserManager.getAccount_createUserAccount_of_hasAccount hu uid username, rfl⟩

/-- **Who is not logged in touches nothing.** -/
theorem untouched_of_not_loggedIn (hlogin : session.isLoggedIn = false) :
    Untouched services
      (Router.dispatch type answers locals services session data reqLen).services := by
  have heffect := dispatch_effect type answers services session data reqLen locals
  generalize (Router.dispatch type answers locals services session data reqLen).session
    = session' at heffect
  generalize (Router.dispatch type answers locals services session data reqLen).services
    = services' at heffect ⊢
  cases heffect with
  | nothing => exact Untouched.refl services
  | login => exact untouched_loginUsers answers services _
  | register => exact untouched_createUserAccount services _ _
  | logout h | deposit h | accepted h | refused h | cancel h =>
      rw [hlogin] at h
      cases h

/-- **Every request acts as the user of its session.** -/
theorem actsAs_dispatch :
    ActsAs session.userId services
      (Router.dispatch type answers locals services session data reqLen).services := by
  have heffect := dispatch_effect type answers services session data reqLen locals
  generalize (Router.dispatch type answers locals services session data reqLen).session
    = session' at heffect
  generalize (Router.dispatch type answers locals services session data reqLen).services
    = services' at heffect ⊢
  cases heffect with
  | nothing | logout => exact (Untouched.refl services).actsAs _
  | login => exact (untouched_loginUsers answers services _).actsAs _
  | register => exact (untouched_createUserAccount services _ _).actsAs _
  | deposit =>
      exact ⟨fun u _ hne => UserManager.getAccount_modifyAccount_of_ne _ hne _, Or.inl rfl⟩
  | accepted =>
      exact ⟨fun u _ hne => UserManager.getAccount_freeze_of_ne _ _ hne,
        Or.inr ⟨_, _, rfl, rfl⟩⟩
  | refused => exact ⟨fun u _ hne => UserManager.getAccount_freeze_of_ne _ _ hne, Or.inl rfl⟩
  | cancel => exact ⟨fun _ _ _ => rfl, Or.inr ⟨_, _, rfl, rfl⟩⟩

/-- The reply of a request that is not a login or a registration shows no other account. -/
theorem reply_congr (hlogin : type ≠ .login) (hregister : type ≠ .register)
    {users : UserManager}
    (h : users.getAccount session.userId = services.users.getAccount session.userId) :
    (Router.dispatch type answers locals { services with users } session data reqLen).reply
      = (Router.dispatch type answers locals services session data reqLen).reply := by
  cases type with
  | login => exact absurd rfl hlogin
  | register => exact absurd rfl hregister
  | balance =>
      have hbalance : users.getBalance session.userId
          = services.users.getBalance session.userId := by
        unfold UserManager.getBalance
        rw [h]
      simp only [Router.dispatch, GetBalanceHandler.handle, hbalance]
      split_ifs <;> rfl
  | holdings =>
      have hholdings : users.getHoldings session.userId
          = services.users.getHoldings session.userId := by
        unfold UserManager.getHoldings
        rw [h]
      simp only [Router.dispatch, GetHoldingsHandler.handle, hholdings]
      split_ifs <;> rfl
  | trade =>
      simp only [Router.dispatch, TradeHandler.handle, UserManager.freeze_congr _ h]
      split_ifs <;> rfl
  | deposit =>
      simp only [Router.dispatch, DepositHandler.handle]
      split_ifs <;> rfl
  | cancel =>
      simp only [Router.dispatch, CancelOrderHandler.handle]
      split_ifs <;> rfl
  | logout =>
      simp only [Router.dispatch, ExitHandler.handle]
      split_ifs <;> rfl
  | orders =>
      simp only [Router.dispatch, GetOrdersHandler.handle]
      split_ifs <;> rfl
  | market =>
      simp only [Router.dispatch, GetMarketHandler.handle]
      split_ifs <;> rfl
  | trend =>
      simp only [Router.dispatch, GetTrendHandler.respond]
      split_ifs <;> rfl
  | allStocks => rfl

end Who

end ExchangeServer
