import ExchangeServer.Handlers.Basic

/-!
# What a reply shows of the stack

The structures of a reply are local variables.  Most handlers zero theirs first, and the
others write every field, except one: a failed login writes the status of its
`AuthResponse` and sends the other eight bytes as they are.

`reply_fixed_iff` says that this is the only path on which the reply depends on what the
memory held before.
-/

namespace ExchangeServer

open Lib

/-! ## Structures that are all written -/

/-- A status and a 64-bit field. -/
theorem read_status_field (m : Memory) (status field : ℕ) :
    ((m.store 0 (littleEndian 1 status)).store 1 (littleEndian 8 field)).read 9
      = littleEndian 1 status ++ littleEndian 8 field :=
  m.read_fill [littleEndian 1 status, littleEndian 8 field] (by simp) rfl

/-- The header of a list. -/
theorem read_header (m : Memory) (count : ℕ) :
    ((m.store 0 (littleEndian 1 1)).store 1 (littleEndian 4 (UInt32.ofNat count).toNat)).read 5
      = listHeader 1 count :=
  m.read_fill [littleEndian 1 1, littleEndian 4 (UInt32.ofNat count).toNat]
    (by simp [listHeader]) rfl

theorem read_holdingItem (m : Memory) (holding : UInt32 × Int32) :
    ((m.store 0 (littleEndian 4 holding.1.toNat)).store 4
      (littleEndian 4 holding.2.toUInt32.toNat)).read 8 = holdingItem holding :=
  m.read_fill [littleEndian 4 holding.1.toNat, littleEndian 4 holding.2.toUInt32.toNat]
    (by simp [holdingItem]) rfl

theorem read_orderItem (m : Memory) (o : Order) :
    (((((m.store 0 (littleEndian 8 o.orderId.toNat)).store 8
      (littleEndian 4 o.tickerId.toNat)).store 12
      (littleEndian 1 (if o.side = .buy then 0 else 1))).store 13
      (littleEndian 8 o.price.toNat)).store 21 (littleEndian 8 o.quantity.toNat)).read 29
      = orderItem o := by
  refine m.read_fill [littleEndian 8 o.orderId.toNat, littleEndian 4 o.tickerId.toNat,
    littleEndian 1 (if o.side = .buy then 0 else 1), littleEndian 8 o.price.toNat,
    littleEndian 8 o.quantity.toNat] ?_ ?_
  · cases hside : o.side <;> simp [orderItem, hside]
  · simp [orderItem]

/-- Items that do not depend on where they are. -/
theorem flatten_mapIdx {α : Type*} {f : ℕ → α → List Byte} {g : α → List Byte}
    (h : ∀ i a, f i a = g a) (as : List α) : (as.mapIdx f).flatten = as.flatMap g := by
  have hf : f = fun _ => g := by
    funext i a
    exact h i a
  subst hf
  induction as with
  | nil => rfl
  | cons a as ih =>
      rw [List.mapIdx_cons, List.flatten_cons, List.flatMap_cons, ih]

/-! ## The handlers that do not zero everything -/

section Replies

variable (answers : Answers) (locals : Locals) (services : Services) (session : Session)
  (data : List Byte) (reqLen : UInt32)

/-- `GetOrdersHandler` lists the active orders. -/
theorem GetOrdersHandler.reply_eq (hlogin : session.isLoggedIn = true) :
    (GetOrdersHandler.handle locals services session).reply
      = ordersReply (services.engine.getUserActiveOrder session.userId) := by
  unfold GetOrdersHandler.handle
  rw [if_pos hlogin]
  show _ ++ (List.mapIdx _ _).flatten = _
  dsimp only
  rw [read_header, List.length_mapIdx, flatten_mapIdx fun i o => read_orderItem (locals.item i) o]
  rfl

/-- `GetHoldingsHandler` lists the holdings. -/
theorem GetHoldingsHandler.reply_eq (hlogin : session.isLoggedIn = true) :
    (GetHoldingsHandler.handle locals services session).reply
      = holdingsReply ((services.users.getHoldings session.userId).entries.map
          fun e => (e.1, e.2)) := by
  unfold GetHoldingsHandler.handle
  rw [if_pos hlogin]
  show _ ++ (List.mapIdx _ _).flatten = _
  dsimp only
  rw [read_header, List.length_mapIdx,
    flatten_mapIdx fun i holding => read_holdingItem (locals.item i) holding]
  rfl

/-- The header of `GetAllStocksHandler` is not zeroed, and all written. -/
theorem GetAllStocksHandler.reply_eq :
    (GetAllStocksHandler.handle answers locals services session).reply
      = (GetAllStocksHandler.handle answers ⟨Memory.zeroed, locals.item⟩ services session).reply := by
  show Memory.read _ 5 ++ _ = Memory.read _ 5 ++ _
  rw [read_header, read_header]

/-- A login that succeeds writes both fields. -/
theorem LoginHandler.reply_of_checkLogin (hlong : ¬ reqLen < AuthRequest.size)
    (hok : answers.checkLogin (AuthRequest.username data) (AuthRequest.password data) = true) :
    ∃ dbId : UInt64, ∀ locals,
      (LoginHandler.handle answers locals services session data reqLen).reply
        = littleEndian 1 1 ++ littleEndian 8 dbId.toNat := by
  refine ⟨if services.users.getId (AuthRequest.username data) = 0 then
      answers.getUserId (AuthRequest.username data)
    else services.users.getId (AuthRequest.username data), fun locals => ?_⟩
  unfold LoginHandler.handle
  rw [if_neg hlong]
  dsimp only
  rw [if_pos hok]
  exact read_status_field locals.res 1 _

/-- A login that fails sends eight bytes that were there before. -/
theorem LoginHandler.reply_of_not_checkLogin (hlong : ¬ reqLen < AuthRequest.size)
    (hfail : answers.checkLogin (AuthRequest.username data) (AuthRequest.password data) = false) :
    (LoginHandler.handle answers locals services session data reqLen).reply
      = littleEndian 1 0 ++ locals.res.readFrom 1 8 := by
  unfold LoginHandler.handle
  rw [if_neg hlong]
  dsimp only
  rw [hfail, if_neg Bool.false_ne_true]
  exact locals.res.read_store_head (littleEndian 1 0) 8

end Replies

/-! ## All handlers -/

/-- The reply is the same whatever the local structures held before. -/
def ReplyFixed (type : MsgType) (answers : Answers) (services : Services) (session : Session)
    (data : List Byte) (reqLen : UInt32) : Prop :=
  ∀ locals locals',
    (Router.dispatch type answers locals services session data reqLen).reply
      = (Router.dispatch type answers locals' services session data reqLen).reply

/-- The request is a login, long enough, with credentials that are refused. -/
def RefusedLogin (type : MsgType) (answers : Answers) (data : List Byte) (reqLen : UInt32) : Prop :=
  type = .login ∧ AuthRequest.size ≤ reqLen ∧
    answers.checkLogin (AuthRequest.username data) (AuthRequest.password data) = false

/-- **A reply leaks memory exactly when it answers a refused login.** -/
theorem reply_fixed_iff (type : MsgType) (answers : Answers) (services : Services)
    (session : Session) (data : List Byte) (reqLen : UInt32) :
    ReplyFixed type answers services session data reqLen ↔
      ¬ RefusedLogin type answers data reqLen := by
  constructor
  · rintro hfixed ⟨rfl, hlong, hfail⟩
    have hlong' : ¬ reqLen < AuthRequest.size := UInt32.not_lt.mpr hlong
    -- A stack of zeros and one of ones are told apart.
    have hreply := hfixed ⟨fun _ => 0, fun _ _ => 0⟩ ⟨fun _ => 1, fun _ _ => 0⟩
    simp only [Router.dispatch] at hreply
    rw [LoginHandler.reply_of_not_checkLogin _ _ _ _ _ _ hlong' hfail,
      LoginHandler.reply_of_not_checkLogin _ _ _ _ _ _ hlong' hfail] at hreply
    exact absurd (List.append_cancel_left hreply) (by decide)
  · intro hnot locals locals'
    cases type with
    | login =>
        simp only [Router.dispatch]
        by_cases hshort : reqLen < AuthRequest.size
        · unfold LoginHandler.handle
          rw [if_pos hshort, if_pos hshort]
        · cases hok : answers.checkLogin (AuthRequest.username data) (AuthRequest.password data) with
          | true =>
              obtain ⟨dbId, hreply⟩ :=
                LoginHandler.reply_of_checkLogin answers services session data reqLen hshort hok
              rw [hreply, hreply]
          | false => exact absurd ⟨rfl, UInt32.not_lt.mp hshort, hok⟩ hnot
    | orders =>
        simp only [Router.dispatch]
        cases hlogin : session.isLoggedIn with
        | true => rw [GetOrdersHandler.reply_eq _ _ _ hlogin, GetOrdersHandler.reply_eq _ _ _ hlogin]
        | false =>
            unfold GetOrdersHandler.handle
            rw [if_neg (by rw [hlogin]; nofun), if_neg (by rw [hlogin]; nofun)]
    | holdings =>
        simp only [Router.dispatch]
        cases hlogin : session.isLoggedIn with
        | true =>
            rw [GetHoldingsHandler.reply_eq _ _ _ hlogin, GetHoldingsHandler.reply_eq _ _ _ hlogin]
        | false =>
            unfold GetHoldingsHandler.handle
            rw [if_neg (by rw [hlogin]; nofun), if_neg (by rw [hlogin]; nofun)]
    | allStocks =>
        simp only [Router.dispatch]
        rw [GetAllStocksHandler.reply_eq, GetAllStocksHandler.reply_eq _ locals']
        rfl
    -- The others zero their structure.
    | register | logout | deposit | balance | trade | cancel | market | trend => rfl

/-- A login that is refused, on a connection that is not logged in. -/
theorem refused_login_leaks :
    ¬ ReplyFixed .login Answers.offline Services.new ⟨"", 0⟩ (List.replicate 64 0) 64 := by
  intro hfixed
  have hreply := hfixed ⟨fun _ => 0, fun _ _ => 0⟩ ⟨fun _ => 1, fun _ _ => 0⟩
  simp only [Router.dispatch] at hreply
  rw [LoginHandler.reply_of_not_checkLogin _ _ _ _ _ _ (by decide) rfl,
    LoginHandler.reply_of_not_checkLogin _ _ _ _ _ _ (by decide) rfl] at hreply
  exact absurd hreply (by decide)

end ExchangeServer
