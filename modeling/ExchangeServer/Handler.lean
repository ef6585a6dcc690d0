import ExchangeServer.UserManager
import ExchangeServer.WALManager

/-!
# Requests

The handlers of `Handler.hpp` that move assets or orders, from the decoded request
on, with `OrderIdGenerator.hpp`.

`cancel_exact_iff` follows a cancel request through all its layers.  The id is a
64-bit number until the last of them: `OrderBook::cancelOrder` receives it as a
`uint32_t`, so a request hits the order it names only when nothing is lost by
that, and a generated id fits 32 bits for about a second after `EPOCH`.
-/

namespace ExchangeServer

open Lib PriceTime

/-! ## Order ids -/

namespace OrderIdGenerator

/-- `EPOCH`. -/
def epoch : UInt64 := 1767225600000

/-- `node_id_`. -/
def nodeId : UInt64 := 1

/-- `OrderIdGenerator::generate`, from the clock reading and the sequence number it
draws. -/
def generate (timestamp : UInt64) (seq : UInt32) : UInt64 :=
  ((timestamp - epoch) <<< 22) ||| (nodeId <<< 12) ||| (seq &&& 4095).toUInt64

end OrderIdGenerator

/-! ## Sessions and requests -/

/-- `Session`: the user a connection is logged in as. -/
structure Session where
  username : String
  userId : UInt64
deriving DecidableEq, Repr

/-- `Session::isLoggedIn`. -/
def Session.isLoggedIn (session : Session) : Bool :=
  !session.username.isEmpty

/-- `TradeRequest`. -/
structure TradeRequest where
  tickerId : UInt32
  side : UInt8
  price : UInt64
  amount : UInt32
deriving DecidableEq, Repr

namespace TradeRequest

/-- `(req->side == 0) ? OrderSide::BUY : OrderSide::SELL`. -/
def orderSide (req : TradeRequest) : OrderSide :=
  if req.side = 0 then .buy else .sell

/-- The order `TradeHandler::handle` builds. -/
def order (req : TradeRequest) (session : Session) (orderId now : UInt64) : Order where
  orderId := orderId
  tickerId := req.tickerId
  userId := session.userId
  side := req.orderSide
  price := req.price
  quantity := req.amount.toUInt64
  timestamp := now

/-- `int64_t total_cost = req->price * req->amount`. -/
def totalCost (req : TradeRequest) : Int64 :=
  (req.price * req.amount.toUInt64).toInt64

/-- The freeze of `TradeHandler::handle`. -/
def freeze (req : TradeRequest) (users : UserManager) (session : Session) :
    UserManager × Bool :=
  match req.orderSide with
  | .buy => users.tryFreezeBalance session.userId req.totalCost
  | .sell => users.tryFreezeStock session.userId req.tickerId req.amount.toInt32

end TradeRequest

/-- `CancelRequest`. -/
structure CancelRequest where
  tickerId : UInt32
  orderId : UInt64
deriving DecidableEq, Repr

/-- `CancelOrderHandler::handle`: what it appends to the log. -/
def CancelRequest.handle (req : CancelRequest) (session : Session) (thread : ThreadId)
    (wal : WALManager) : WALManager :=
  if session.isLoggedIn then wal.appendCancel thread req.tickerId req.orderId session.userId
  else wal

/-! ## A cancel request -/

/-- The cancellation of `x` by `u` does what it says: if that order rests in the
book it leaves, alone, with one cancel record of what it still had, else nothing
happens. -/
def CancelsExactly (now x u : UInt64) (p : OrderBookProcessor)
    (out : OrderBookProcessor × Option CancelRecord) : Prop :=
  (∀ o ∈ p.book.resting, o.orderId = x → o.userId = u →
    p.book.resting.Perm (o :: out.1.book.resting) ∧
      out.2 = some (OrderBookProcessor.cancelRecord now o)) ∧
  ((∀ o ∈ p.book.resting, ¬ (o.orderId = x ∧ o.userId = u)) →
    out.1.book = p.book ∧ out.2 = none)

/-- The id survives the narrowing, or neither it nor what the narrowing makes of it
names a resting order of the user. -/
def IdSurvives (x u : UInt64) (book : OrderBook) : Prop :=
  x.toNat < 2 ^ 32 ∨
    ∀ o ∈ book.resting, o.userId = u → o.orderId ≠ x ∧ o.orderId.toNat ≠ x.toNat % 2 ^ 32

theorem narrow_toNat (x : UInt64) : x.toUInt32.toUInt64.toNat = x.toNat % 2 ^ 32 := by
  rw [UInt32.toNat_toUInt64, UInt64.toNat_toUInt32]

/-- What cancelling an order with a narrowed id does to a simulated book. -/
theorem cancelsExactly_iff {p : OrderBookProcessor} {resting : List Order}
    (h : Simulates p.book resting) (clock : ℕ → UInt64) (now : UInt64) (t : UInt32)
    (x u : UInt64) :
    CancelsExactly now x u p (p.processEvent clock now (.cancelOrder t x u)) ↔
      IdSurvives x u p.book := by
  obtain ⟨hreturned, hsim, hsame⟩ := h.cancelOrder x.toUInt32 u
  have hmem : ∀ o, o ∈ p.book.resting ↔ o ∈ resting := fun o => h.perm.mem_iff
  unfold CancelsExactly
  simp only [OrderBookProcessor.processEvent]
  constructor
  · rintro ⟨hhit, hmiss⟩
    by_cases hx : x.toNat < 2 ^ 32
    · exact Or.inl hx
    -- What is cancelled has the narrowed id, which is not the one asked for.
    have hnot : ∀ o ∈ p.book.resting, o.userId = u → o.orderId ≠ x := by
      intro o ho hu hid
      obtain ⟨-, hsome⟩ := hhit o ho hid hu
      obtain ⟨o', ho', hrec⟩ := Option.map_eq_some_iff.mp hsome
      obtain ⟨-, hnarrow, -⟩ := mem_of_cancel (hreturned ▸ ho')
      have hid' : o'.orderId = x := (congrArg CancelRecord.orderId hrec).trans hid
      have hsize := congrArg UInt64.toNat (hnarrow.symm.trans hid')
      rw [narrow_toNat] at hsize
      omega
    refine Or.inr fun o ho hu => ⟨hnot o ho hu, fun hid => ?_⟩
    obtain ⟨-, hnone⟩ := hmiss fun o ho hkey => hnot o ho hkey.2 hkey.1
    have hid' : o.orderId = x.toUInt32.toUInt64 := by
      rw [← UInt64.toNat_inj, narrow_toNat, hid]
    have hsome := cancel_eq_some h.sound.distinct ((hmem o).mp ho)
    rw [hid', hu, ← hreturned] at hsome
    rw [hsome] at hnone
    cases hnone
  · intro hsurvives
    have hmiss : (∀ o ∈ p.book.resting,
          ¬ (o.orderId = x.toUInt32.toUInt64 ∧ o.userId = u)) →
        (p.book.cancelOrder x.toUInt32 u).1 = p.book ∧
          (p.book.cancelOrder x.toUInt32 u).2.map (OrderBookProcessor.cancelRecord now)
            = none := by
      intro hnone
      have hreturned' : (p.book.cancelOrder x.toUInt32 u).2 = none := by
        rw [hreturned]
        by_contra hne
        obtain ⟨o, ho⟩ := Option.ne_none_iff_exists'.mp hne
        obtain ⟨ho, hkey⟩ := mem_of_cancel ho
        exact hnone o ((hmem o).mpr ho) hkey
      exact ⟨hsame hreturned', by rw [hreturned']; rfl⟩
    rcases hsurvives with hx | hnot
    · have hid : x.toUInt32.toUInt64 = x := by
        rw [← UInt64.toNat_inj, narrow_toNat, Nat.mod_eq_of_lt hx]
      rw [hid] at hmiss hreturned hsim
      refine ⟨fun o ho hox hou => ?_, hmiss⟩
      subst hox hou
      have hsome := cancel_eq_some h.sound.distinct ((hmem o).mp ho)
      refine ⟨?_, by rw [hreturned, hsome]; rfl⟩
      exact h.perm.trans
        ((cancel_perm h.sound.distinct hsome).trans (List.Perm.cons o hsim.perm.symm))
    · refine ⟨fun o ho hox hou => absurd hox (hnot o ho hou).1, fun _ => hmiss ?_⟩
      rintro o ho ⟨hid, hu⟩
      refine (hnot o ho hu).2 ?_
      rw [hid, narrow_toNat]

/-- **A cancel request hits exactly the order it names if and only if the id
survives being narrowed to 32 bits** (or names nothing either way).  The request
reaches the ticker's worker with its id and its user unchanged; what the worker
makes of it, in whatever reachable book it then finds, is decided by the narrowing
alone. -/
theorem cancel_exact_iff (req : CancelRequest) (session : Session) (thread : ThreadId)
    (wal : WALManager) (hlogin : session.isLoggedIn = true) :
    ∃ ev, (req.handle session thread wal).queue = wal.queue.enqueue thread [ev] ∧
      ∀ (engine : MatchingEngine) (p : OrderBookProcessor),
        engine.orderBooks.lookup req.tickerId = some p →
        ∃ ev', (WALManager.forward engine ev).1.orderBooks.lookup req.tickerId
            = some (p.enqueue ev') ∧
          ∀ (p' : OrderBookProcessor) (submitted : List Order) (clock : ℕ → UInt64)
            (now : UInt64), OrderBook.Reachable submitted p'.book →
            (CancelsExactly now req.orderId session.userId p'
                (p'.processEvent clock now ev') ↔
              IdSurvives req.orderId session.userId p'.book) := by
  refine ⟨.cancelOrder req.tickerId req.orderId session.userId, ?_, fun engine p hp => ?_⟩
  · rw [CancelRequest.handle, if_pos hlogin]
    rfl
  · refine ⟨.cancelOrder 0 req.orderId session.userId, ?_, fun p' submitted clock now h => ?_⟩
    · simp only [WALManager.forward, MatchingEngine.cancelOrder, hp]
      exact AList.lookup_insert _
    · obtain ⟨-, resting, -, hsim⟩ := h.simulates
      exact cancelsExactly_iff hsim clock now 0 req.orderId session.userId

/-- An id drawn 1024 ms after `EPOCH`, the first moment at which it exceeds 32
bits. -/
def lateId : UInt64 :=
  OrderIdGenerator.generate (OrderIdGenerator.epoch + 1024) 0

/-- A worker whose book holds one order of user `10`. -/
def workerWith (orderId : UInt64) : OrderBookProcessor :=
  { OrderBookProcessor.new 7 with
    book := ((OrderBook.new 7).processOrder (fun _ => 0)
      ⟨orderId, 7, 10, .buy, 100, 5, 0⟩ []).1 }

/-- Its book is one that a run of the book reaches. -/
theorem workerWith_reachable (orderId : UInt64) :
    OrderBook.Reachable [⟨orderId, 7, 10, .buy, 100, 5, 0⟩] (workerWith orderId).book :=
  (OrderBook.Reachable.new 7).processOrder _ _ _ (by simp)

/-- The order with a late id cannot be cancelled, and a request that names it
cancels another order of the user, whose id is what is left of it. -/
theorem cancel_misses_lateId :
    ¬ CancelsExactly 0 lateId 10 (workerWith lateId)
        ((workerWith lateId).processEvent (fun _ => 0) 0 (.cancelOrder 0 lateId 10)) ∧
      ¬ CancelsExactly 0 lateId 10 (workerWith lateId.toUInt32.toUInt64)
        ((workerWith lateId.toUInt32.toUInt64).processEvent (fun _ => 0) 0
          (.cancelOrder 0 lateId 10)) := by
  constructor
  · rintro ⟨hhit, -⟩
    obtain ⟨-, hsome⟩ := hhit ⟨lateId, 7, 10, .buy, 100, 5, 0⟩ (by decide) rfl rfl
    exact absurd hsome (by decide)
  · rintro ⟨-, hmiss⟩
    obtain ⟨-, hnone⟩ := hmiss (by decide)
    exact absurd hnone (by decide)

theorem cancel_exact_iff_sample :
    (⟨"alice", 10⟩ : Session).isLoggedIn = true ∧
      ∃ ev, (CancelRequest.handle ⟨7, 4096⟩ ⟨"alice", 10⟩ 0 (WALManager.new none)).queue
        = [(0, ev)] := by
  refine ⟨by decide, ?_⟩
  obtain ⟨ev, hqueue, -⟩ :=
    cancel_exact_iff ⟨7, 4096⟩ ⟨"alice", 10⟩ 0 (WALManager.new none) (by decide)
  exact ⟨ev, hqueue⟩

end ExchangeServer
