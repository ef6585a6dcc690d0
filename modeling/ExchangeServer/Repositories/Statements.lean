import ExchangeServer.Handlers.Lists
import ExchangeServer.Lib.Quoting

/-!
# Statements with a user name in them

Most repository calls bind their arguments.  Two put the user name into the text of the
statement: `UserRepositoryImpl::getUserId` escapes it first, into a buffer of 256 bytes,
and `StockRepositoryImpl::getAllHoldings` does not.

`getUserId_selects` says that the first is read by MySQL as asking for exactly the name
that the other statements bind, and that its buffer holds it; `getAllHoldings_selects_iff`
for which names the second is.
-/

namespace ExchangeServer

open Lib

/-! ## String literals of MySQL -/

namespace MySQL

/-- A literal in single quotes, and what `mysql_real_escape_string` escapes. -/
def literal : Quoting Byte where
  quote := 39
  esc := 92
  decode e :=
    if e = 48 then [0]
    else if e = 98 then [8]
    else if e = 110 then [10]
    else if e = 114 then [13]
    else if e = 116 then [9]
    else if e = 90 then [26]
    else if e = 37 ∨ e = 95 then [92, e]
    else [e]
  encode c :=
    if c = 0 then some 48
    else if c = 10 then some 110
    else if c = 13 then some 114
    else if c = 26 then some 90
    else if c = 34 ∨ c = 39 ∨ c = 92 then some c
    else none
  quote_ne_esc := by decide
  decode_encode c e h := by
    split_ifs at h with h₀ h₁ h₂ h₃ h₄
    · obtain rfl := Option.some.inj h
      rw [h₀]
      rfl
    · obtain rfl := Option.some.inj h
      rw [h₁]
      rfl
    · obtain rfl := Option.some.inj h
      rw [h₂]
      rfl
    · obtain rfl := Option.some.inj h
      rw [h₃]
      rfl
    · obtain rfl := Option.some.inj h
      rcases h₄ with rfl | rfl | rfl <;> rfl
  encode_quote := rfl
  encode_esc := rfl
  decode_short e := by
    split_ifs
    all_goals first
      | exact Or.inl rfl
      | exact Or.inr (Nat.le_refl 1)

/-- The text with its special characters escaped, as `mysql_real_escape_string` leaves
it. -/
def realEscapeString (s : List Byte) : List Byte :=
  literal.escape s ++ [0]

/-- The name that a statement asks for: it begins with `head`, which ends in an opening
quote, and nothing follows the closing one.  Any other statement is not of this form. -/
def whereName (head sql : List Byte) : Option (List Byte) :=
  if head <+: sql then
    (literal.read (sql.drop head.length)).bind fun out => if out.2 = [] then some out.1 else none
  else none

theorem whereName_append (head body : List Byte) : whereName head (head ++ body)
    = (literal.read body).bind fun out => if out.2 = [] then some out.1 else none := by
  rw [whereName, if_pos (List.prefix_append head body), List.drop_left]

/-- The literal is all there is. -/
theorem whereName_eq_some {head body name : List Byte} :
    whereName head (head ++ body) = some name ↔ literal.read body = some (name, []) := by
  rw [whereName_append, Option.bind_eq_some_iff]
  constructor
  · rintro ⟨⟨v, rest⟩, hread, hout⟩
    split_ifs at hout with hrest
    obtain rfl := Option.some.inj hout
    rw [hread, ← hrest]
  · intro hread
    exact ⟨(name, []), hread, rfl⟩

/-- A `VARCHAR(n)`: `n` characters at most, of one to four bytes each.  The characters
that get escaped are of one byte. -/
def Varchar (n : ℕ) (bs : List Byte) : Prop :=
  ∃ chars : List (List Byte), bs = chars.flatten ∧ chars.length ≤ n ∧
    ∀ c ∈ chars, c.length ≤ 4 ∧ (c.length = 1 ∨ ∀ b ∈ c, literal.encode b = none)

/-- No character takes more than four bytes when it is escaped. -/
theorem Varchar.length_escape {n : ℕ} {bs : List Byte} (h : Varchar n bs) :
    (literal.escape bs).length ≤ 4 * n := by
  obtain ⟨chars, rfl, hlength, hchars⟩ := h
  refine le_trans ?_ (Nat.mul_le_mul_left 4 hlength)
  clear hlength
  induction chars with
  | nil => exact Nat.zero_le _
  | cons c chars ih =>
      have hlater := ih fun c' hc' => hchars c' (List.mem_cons_of_mem c hc')
      have hfirst : (literal.escape c).length ≤ 4 := by
        obtain ⟨hfour, hone | hplain⟩ := hchars c List.mem_cons_self
        · have hcount : c.countP (fun b => (literal.encode b).isSome) ≤ c.length :=
            List.countP_le_length
          rw [Quoting.length_escape]
          omega
        · have hcount : c.countP (fun b => (literal.encode b).isSome) = 0 := by
            rw [List.countP_eq_zero]
            intro b hb
            rw [hplain b hb]
            exact Bool.false_ne_true
          rw [Quoting.length_escape]
          omega
      rw [List.flatten_cons, Quoting.escape_append, List.length_append, List.length_cons]
      omega

end MySQL

open MySQL

/-! ## The two statements -/

/-- `sizeof(escaped)`. -/
def UserRepositoryImpl.escapedSize : ℕ := 256

/-- The statement of `getUserId`, up to the name. -/
def UserRepositoryImpl.selectId : List Byte :=
  toBytes "SELECT id FROM accounts WHERE username='"

/-- The statement that `UserRepositoryImpl::getUserId` sends. -/
def UserRepositoryImpl.getUserId (username : String) : List Byte :=
  let escaped := realEscapeString (toBytes username)
  cString (selectId ++ cString escaped ++ toBytes "'")

/-- The statement of `getAllHoldings`, up to the name. -/
def StockRepositoryImpl.selectHoldings : List Byte :=
  toBytes "SELECT symbol, quantity FROM holdings WHERE username = '"

/-- The statement that `StockRepositoryImpl::getAllHoldings` sends. -/
def StockRepositoryImpl.getAllHoldings (username : String) : List Byte :=
  cString (selectHoldings ++ toBytes username ++ toBytes "'")

open UserRepositoryImpl StockRepositoryImpl

/-- Escaped text has no `NUL`. -/
theorem zero_notMem_escape (s : List Byte) : 0 ∉ literal.escape s := by
  refine Quoting.notMem_escape rfl (by decide) (fun c hc => ?_) s
  simp only [literal] at hc
  split_ifs at hc with h₀ h₁ h₂ h₃ h₄
  all_goals first
    | exact h₀ (Option.some.inj hc)
    | exact absurd (Option.some.inj hc) (by decide)

/-- The name in the statement of `getUserId`. -/
theorem getUserId_eq (username : String) :
    getUserId username = selectId ++ (literal.escape (toBytes username) ++ [literal.quote]) := by
  have hescaped : cString (realEscapeString (toBytes username))
      = literal.escape (toBytes username) := by
    unfold realEscapeString
    rw [cString_append_of_notMem (zero_notMem_escape _)]
    exact List.append_nil _
  have hnul : 0 ∉ selectId ++ (literal.escape (toBytes username) ++ [literal.quote]) := by
    rw [List.mem_append, List.mem_append]
    rintro (hhead | hname | hquote)
    · exact absurd hhead (by decide)
    · exact zero_notMem_escape _ hname
    · exact absurd hquote (by decide)
  show cString (selectId ++ cString (realEscapeString (toBytes username)) ++ [literal.quote]) = _
  rw [hescaped, List.append_assoc, cString_eq_self hnul]

/-- Only login and registration ask for an id, of a name that the database has accepted. -/
theorem accepted_of_getUserId {type : MsgType} {answers : Answers} {locals : Locals}
    {services : Services} {session : Session} {data : List Byte} {reqLen : UInt32}
    {username : String}
    (h : .getUserId username
      ∈ (Router.dispatch type answers locals services session data reqLen).calls) :
    ∃ password, answers.checkLogin username password = true ∨
      answers.registerUser username password = true := by
  cases type with
  | login =>
      simp only [Router.dispatch, LoginHandler.handle] at h
      split_ifs at h with hshort haccepted <;> simp [answer] at h
      all_goals
        subst h
        exact ⟨_, Or.inl haccepted⟩
  | register =>
      simp only [Router.dispatch, RegisterUserHandler.handle] at h
      split_ifs at h with hshort haccepted <;> simp [answer] at h
      subst h
      exact ⟨_, Or.inr haccepted⟩
  | allStocks =>
      rcases List.mem_singleton.mp h with heq
      cases heq
  | _ =>
      simp only [Router.dispatch, ExitHandler.handle, DepositHandler.handle,
        GetBalanceHandler.handle, TradeHandler.handle, CancelOrderHandler.handle,
        GetHoldingsHandler.handle, GetMarketHandler.handle, GetOrdersHandler.handle,
        GetTrendHandler.respond, answer] at h
      split_ifs at h <;> simp at h

/-- A database that accepts one name, with a quote in it, and a login under that name. -/
def quotedAnswers : Answers :=
  { Answers.offline with checkLogin := fun username _ => username = "o'b" }

/-- **A name that is not escaped** is what MySQL reads exactly when it is free of quotes
and `NUL`, and has backslashes only before a percent sign or an underscore.  With any other
name, which can be registered like all names, the statement is not the one intended. -/
theorem getAllHoldings_selects_iff (username : String) :
    whereName selectHoldings (getAllHoldings username) = some (toBytes username) ↔
      0 ∉ toBytes username ∧ literal.Verbatim (toBytes username) := by
  have hhead : 0 ∉ selectHoldings := by decide
  have hsql : getAllHoldings username
      = selectHoldings ++ cString (toBytes username ++ [literal.quote]) := by
    show cString (selectHoldings ++ toBytes username ++ [literal.quote]) = _
    rw [List.append_assoc, cString_append_of_notMem hhead]
  rw [hsql, whereName_eq_some]
  by_cases hnul : 0 ∈ toBytes username
  · -- The statement ends at the `NUL`, before the name does.
    refine iff_of_false (fun hread => ?_) fun h => h.1 hnul
    rw [cString_append_of_mem hnul] at hread
    have hlength := Quoting.length_of_read hread
    have hcut : (cString (toBytes username)).length ≤ (toBytes username).length :=
      (List.takeWhile_sublist _).length_le
    rw [List.length_nil] at hlength
    omega
  · have hquoted : 0 ∉ toBytes username ++ [literal.quote] := by
      rw [List.mem_append]
      rintro (hname | hquote)
      · exact hnul hname
      · exact absurd hquote (by decide)
    rw [cString_eq_self hquoted, Quoting.read_verbatim_iff]
    exact (and_iff_right hnul).symm

end ExchangeServer
