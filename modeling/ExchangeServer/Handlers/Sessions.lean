import ExchangeServer.Handlers.Effects
import ExchangeServer.Lib.Runs

/-!
# Sessions and identities

Who a connection is logged in as is kept in two fields of its session; what id a user
name has is kept in the table `accounts` and, in two indexes, in the cache.  Login and
registration fill them in different ways, and both can fail to learn the id: `getUserId`
returns `0` when its query fails.  `LoginHandler` then leaves the cache alone, and
`RegisterUserHandler` makes an account with id `0`; both log the session in with id `0`.

`Sessions.own_accounts` is about any number of connections and requests in any order: as
long as `getUserId` does not fail where a session is logged in, every session acts on its
own account.  `Sessions.wrong_id_of_lookup_failed` is the converse, and in
`Sessions.shared_account` two users trade on one account.
-/

namespace ExchangeServer

open Lib

/-! ## The table -/

/-- The column `id` of `accounts`, by `username`; ids are unique and begin with `1`, and a
row is never removed. -/
structure AccountIds where
  ids : UnorderedMap String UInt64
  unique : ∀ name name' uid, ids.lookup name = some uid → ids.lookup name' = some uid →
    name = name'
  positive : ∀ name uid, ids.lookup name = some uid → uid ≠ 0

namespace AccountIds

/-- The table without rows. -/
def empty : AccountIds where
  ids := ∅
  unique _ _ _ h := by
    rw [AList.lookup_empty] at h
    cases h
  positive _ _ h := by
    rw [AList.lookup_empty] at h
    cases h

/-- `SELECT id FROM accounts WHERE username = name`. -/
def id (t : AccountIds) (name : String) : Option UInt64 :=
  t.ids.lookup name

/-- The name has no row, and no row has the id. -/
def Free (t : AccountIds) (name : String) (uid : UInt64) : Prop :=
  t.ids.lookup name = none ∧ (∀ e ∈ t.ids.entries, e.2 ≠ uid) ∧ uid ≠ 0

instance (t : AccountIds) (name : String) (uid : UInt64) : Decidable (t.Free name uid) := by
  unfold Free
  infer_instance

/-- A new row. -/
def insert (t : AccountIds) (name : String) (uid : UInt64) (h : t.Free name uid) :
    AccountIds where
  ids := AList.insert name uid t.ids
  unique := by
    have hother : ∀ n, t.ids.lookup n ≠ some uid := fun n hn =>
      h.2.1 ⟨n, uid⟩ ((UnorderedMap.mem_entries_iff ..).mpr hn) rfl
    intro n n' u hn hn'
    rw [UnorderedMap.lookup_insert_eq] at hn hn'
    split_ifs at hn hn' with heq heq' heq'
    · rw [heq, heq']
    · rw [← Option.some.inj hn] at hn'
      exact absurd hn' (hother n')
    · rw [← Option.some.inj hn'] at hn
      exact absurd hn (hother n)
    · exact t.unique n n' u hn hn'
  positive := UnorderedMap.forall_lookup_insert h.2.2 fun n u _ hn => t.positive n u hn

/-- A name and its id; the empty name may have `0` instead, since nobody is logged in under
it. -/
def Names (t : AccountIds) (name : String) (uid : UInt64) : Prop :=
  t.id name = some uid ∨ name = "" ∧ uid = 0

/-- `t'` has the rows of `t`. -/
def Extends (t t' : AccountIds) : Prop :=
  ∀ name uid, t.id name = some uid → t'.id name = some uid

theorem extends_insert (t : AccountIds) {name : String} {uid : UInt64} (h : t.Free name uid) :
    t.Extends (t.insert name uid h) := by
  intro n u hn
  refine (UnorderedMap.lookup_insert_eq ..).trans ?_
  rw [if_neg]
  · exact hn
  · rintro rfl
    rw [id, h.1] at hn
    cases hn

end AccountIds

/-! ## What the cache knows -/

namespace UserManager

theorem findIn_modifyAccount (m : UserManager) (uid : UInt64) (f : UserAccount → UserAccount)
    (k : Fin 256 × String) : (m.modifyAccount uid f).findIn k = m.findIn k := by
  unfold findIn modifyAccount
  by_cases hi : k.1 = idToMtx uid
  · simp only [hi, Function.update_self]
  · simp only [Function.update_of_ne hi]

/-- A new account adds one entry for its name. -/
theorem findIn_createUserAccount {m : UserManager} {uid : UInt64} {name : String}
    {k : Fin 256 × String} {u : UInt64} (h : (m.createUserAccount uid name).findIn k = some u) :
    m.findIn k = some u ∨ k.2 = name ∧ u = uid := by
  obtain ⟨i, n⟩ := k
  unfold createUserAccount at h
  cases hacc : m.getAccount uid with
  | some acc =>
      rw [hacc] at h
      exact Or.inl h
  | none =>
      rw [hacc] at h
      unfold findIn at h ⊢
      by_cases hi : i = idToMtx uid
      · subst hi
        simp only [Function.update_self] at h
        rw [UnorderedMap.lookup_insert_eq] at h
        split_ifs at h with hn
        · exact Or.inr ⟨hn, (Option.some.inj h).symm⟩
        · exact Or.inl h
      · simp only [Function.update_of_ne hi] at h
        exact Or.inl h

/-- The cache says of names and accounts what the table says. -/
structure Known (t : AccountIds) (m : UserManager) : Prop where
  entry : ∀ k uid, m.findIn k = some uid → t.Names k.2 uid
  account : ∀ uid acc, m.getAccount uid = some acc → acc.userId = uid ∧ t.Names acc.username uid

namespace Known

variable {t : AccountIds} {m : UserManager}

theorem new (t : AccountIds) : Known t UserManager.new where
  entry _ _ h := by cases h
  account _ _ h := by cases h

theorem extends' (h : Known t m) {t' : AccountIds} (hext : t.Extends t') : Known t' m where
  entry k uid hk := (h.entry k uid hk).imp_left (hext _ _)
  account uid acc hacc :=
    ⟨(h.account uid acc hacc).1, (h.account uid acc hacc).2.imp_left (hext _ _)⟩

/-- An operation on the assets of an account. -/
theorem modify (h : Known t m) (uid : UInt64) {f : UserAccount → UserAccount}
    (huser : ∀ acc, (f acc).userId = acc.userId)
    (hname : ∀ acc, (f acc).username = acc.username) : Known t (m.modifyAccount uid f) where
  entry k u hk := h.entry k u (by rwa [findIn_modifyAccount] at hk)
  account u acc hacc := by
    rw [getAccount_modifyAccount] at hacc
    split_ifs at hacc with hu
    · obtain ⟨acc', hacc', rfl⟩ := Option.map_eq_some_iff.mp hacc
      rw [huser, hname, hu]
      exact h.account uid acc' hacc'
    · exact h.account u acc hacc

/-- A new account under the id of its name. -/
theorem create (h : Known t m) {uid : UInt64} {name : String}
    (hname : t.Names name uid) : Known t (m.createUserAccount uid name) where
  entry k u hk := by
    rcases findIn_createUserAccount hk with hold | ⟨hkey, rfl⟩
    · exact h.entry k u hold
    · rw [hkey]
      exact hname
  account u acc hacc := by
    rw [getAccount_createUserAccount] at hacc
    split_ifs at hacc with hnew
    · obtain rfl := Option.some.inj hacc
      rw [hnew.1]
      exact ⟨rfl, hname⟩
    · exact h.account u acc hacc

theorem load (h : Known t m) {row : AccountTuple} (hrow : t.id row.username = some row.id) :
    Known t (m.loadAccount row) where
  entry k u hk := by
    rw [findIn_loadAccount] at hk
    split_ifs at hk with heq
    · rw [← Option.some.inj heq, ← Option.some.inj hk]
      exact Or.inl hrow
    · exact h.entry k u hk
  account u acc hacc := by
    rw [getAccount_loadAccount] at hacc
    split_ifs at hacc with heq
    · obtain rfl := Option.some.inj hacc
      obtain rfl := Option.some.inj heq
      exact ⟨rfl, Or.inl hrow⟩
    · exact h.account u acc hacc

theorem loadHolding (h : Known t m) (tickers : TickerIndex) (row : HoldingTuple) :
    Known t (m.loadHolding tickers row) := by
  unfold UserManager.loadHolding
  dsimp only
  split_ifs
  · exact h.modify _ (fun _ => rfl) fun _ => rfl
  · exact h
  · exact h

/-- **After start-up the cache knows the rows that were read.** -/
theorem loadAllFromDB (h : Known t m) (tickers : TickerIndex)
    {accounts : Option (List AccountTuple)} (holdings : Option (List HoldingTuple))
    (hrows : ∀ rows, accounts = some rows → ∀ row ∈ rows, t.id row.username = some row.id) :
    Known t (m.loadAllFromDB tickers accounts holdings) := by
  have haccounts : Known t (accounts.elim m fun rows => rows.foldl loadAccount m) := by
    cases accounts with
    | none => exact h
    | some rows =>
        refine List.foldlRecOn rows loadAccount h fun m hm row hmem => ?_
        exact hm.load (hrows rows rfl row hmem)
  unfold UserManager.loadAllFromDB
  cases holdings with
  | none => exact haccounts
  | some rows =>
      exact List.foldlRecOn rows _ haccounts fun m hm row _ => hm.loadHolding tickers row

/-- A cached id is the id of the table. -/
theorem getId (h : Known t m) {name : String} (hid : m.getId name ≠ 0) :
    t.id name = some (m.getId name) := by
  unfold UserManager.getId at hid ⊢
  cases hfind : (List.finRange 256).findSome? fun i => (m.bucket i).findAccount.lookup name with
  | none => rw [hfind] at hid; exact absurd rfl hid
  | some uid =>
      rw [hfind] at hid
      dsimp only at hid ⊢
      obtain ⟨i, -, hi⟩ := List.exists_of_findSome?_eq_some hfind
      cases hacc : m.getAccount uid with
      | none =>
          rw [read, hacc] at hid
          exact absurd rfl hid
      | some acc =>
          rw [read_of_getAccount _ _ hacc, (h.account uid acc hacc).1] at hid ⊢
          exact (h.entry (i, name) uid hi).resolve_right fun hzero => hid hzero.2

theorem freeze (h : Known t m) (req : TradeRequest) (session : Session) :
    Known t (req.freeze m session).1 := by
  rcases freeze_cases m req session with heq | ⟨f, hf, heq⟩
  · rw [heq]
    exact h
  · rw [heq]
    exact h.modify _ (fun acc => (hf acc).1) fun acc => (hf acc).2

end Known

end UserManager

/-! ## Connections and requests -/

/-- The connections of the server, with what they share. -/
structure Sessions where
  accounts : AccountIds
  services : Services
  session : UnorderedMap ℕ Session

/-- A request on a connection, with what is answered while it is handled. -/
structure Incoming where
  connection : ℕ
  type : MsgType
  data : List Byte
  reqLen : UInt32
  answers : Answers
  locals : Locals
  /-- The id that the database gives to the row of a registration. -/
  newId : UInt64

namespace Incoming

variable (r : Incoming) (t : AccountIds)

/-- The user name in a login or a registration. -/
def username : String := AuthRequest.username r.data

/-- The request is a registration that the repository carries out. -/
def Registers : Prop := ExchangeServer.Registers r.type r.answers r.data r.reqLen

/-- The request is a login that the repository accepts. -/
def LogsIn : Prop := ExchangeServer.LogsIn r.type r.answers r.data r.reqLen

instance : Decidable r.Registers := inferInstanceAs (Decidable (ExchangeServer.Registers ..))

instance : Decidable r.LogsIn := inferInstanceAs (Decidable (ExchangeServer.LogsIn ..))

/-- The table after the request. -/
def accountsAfter : AccountIds :=
  if h : r.Registers ∧ t.Free r.username r.newId then t.insert r.username r.newId h.2 else t

/-- The answers are those of the table: a registration succeeds for a name without a row
and adds one, a login succeeds for a name with a row, and `getUserId` gives the id of the
row, or `0`. -/
def Consistent : Prop :=
  (r.Registers → t.Free r.username r.newId) ∧ (r.LogsIn → (t.id r.username).isSome) ∧
    (r.answers.getUserId r.username = 0 ∨
      (r.accountsAfter t).id r.username = some (r.answers.getUserId r.username))

instance : Decidable (r.Consistent t) := by
  unfold Consistent
  infer_instance

theorem extends_accountsAfter : t.Extends (r.accountsAfter t) := by
  unfold accountsAfter
  split_ifs with h
  · exact t.extends_insert h.2
  · exact fun _ _ h => h

end Incoming

/-- What happens at the server. -/
inductive Sessions.Action where
  /-- `SessionManager::createSession`. -/
  | connect (k : ℕ)
  /-- `SessionManager::removeSession`. -/
  | disconnect (k : ℕ)
  /-- A request, handled from beginning to end. -/
  | request (r : Incoming)
  /-- A row that somebody else inserts. -/
  | insertRow (name : String) (uid : UInt64)

namespace Sessions

/-- The server before it accepts connections, with the rows that the two queries of the
start gave. -/
def start (accounts : AccountIds) (services : Services) (tickers : TickerIndex)
    (accountRows : Option (List AccountTuple)) (holdingRows : Option (List HoldingTuple)) :
    Sessions where
  accounts := accounts
  services := { services with
    users := UserManager.new.loadAllFromDB tickers accountRows holdingRows }
  session := ∅

/-- One step; a request needs its connection and consistent answers. -/
def step (s : Sessions) : Action → Option Sessions
  | .connect k => some { s with session := AList.insert k ⟨"", 0⟩ s.session }
  | .disconnect k => some { s with session := AList.erase k s.session }
  | .insertRow name uid =>
      if h : s.accounts.Free name uid then
        some { s with accounts := s.accounts.insert name uid h }
      else none
  | .request r =>
      match s.session.lookup r.connection with
      | none => none
      | some session =>
          if r.Consistent s.accounts then
            let out := Router.dispatch r.type r.answers r.locals s.services session r.data r.reqLen
            some
              { accounts := r.accountsAfter s.accounts
                services := out.services
                session := AList.insert r.connection out.session s.session }
          else none

/-- `getUserId` does not fail where the request logs a session in: in a registration, and
in a login of a user who is not in the cache. -/
def LookupSucceeds (s : Sessions) : Action → Prop
  | .request r =>
      r.username ≠ "" → r.Registers ∨ r.LogsIn ∧ s.services.users.getId r.username = 0 →
        r.answers.getUserId r.username ≠ 0
  | _ => True

instance (s : Sessions) (a : Action) : Decidable (s.LookupSucceeds a) := by
  unfold LookupSucceeds
  cases a <;> infer_instance

/-- What holds of the server as long as lookups succeed. -/
structure Invariant (s : Sessions) : Prop where
  known : s.services.users.Known s.accounts
  own : ∀ k session, s.session.lookup k = some session → session.isLoggedIn = true →
    s.accounts.id session.username = some session.userId

/-- **Sessions act only on their own account.** -/
structure OwnAccounts (s : Sessions) : Prop where
  /-- The id of a session is the id of its user. -/
  own : ∀ k session, s.session.lookup k = some session → session.isLoggedIn = true →
    s.accounts.id session.username = some session.userId
  /-- The account with this id is the account of the user. -/
  account : ∀ k session, s.session.lookup k = some session → session.isLoggedIn = true →
    ∀ acc, s.services.users.getAccount session.userId = some acc →
      acc.userId = session.userId ∧ acc.username = session.username
  /-- Different users have different ids. -/
  apart : ∀ k session k' session', s.session.lookup k = some session →
    s.session.lookup k' = some session' → session.isLoggedIn = true →
    session'.isLoggedIn = true → session.username ≠ session'.username →
    session.userId ≠ session'.userId
  /-- A request of a session acts as its user. -/
  acts : ∀ k session, s.session.lookup k = some session →
    ∀ type answers locals data reqLen, ActsAs session.userId s.services
      (Router.dispatch type answers locals s.services session data reqLen).services
  /-- Its reply depends on no other account. -/
  reads : ∀ k session, s.session.lookup k = some session →
    ∀ type answers locals data reqLen, type ≠ .login → type ≠ .register →
      ∀ users : UserManager,
        users.getAccount session.userId = s.services.users.getAccount session.userId →
        (Router.dispatch type answers locals { s.services with users } session data
          reqLen).reply
        = (Router.dispatch type answers locals s.services session data reqLen).reply
  /-- A request of a session that is not logged in touches nothing. -/
  outsider : ∀ k session, s.session.lookup k = some session → session.isLoggedIn = false →
    ∀ type answers locals data reqLen, Untouched s.services
      (Router.dispatch type answers locals s.services session data reqLen).services

/-! ### One step -/

theorem step_request {s s' : Sessions} {r : Incoming} (h : step s (.request r) = some s') :
    ∃ session, s.session.lookup r.connection = some session ∧ r.Consistent s.accounts ∧
      s' = { accounts := r.accountsAfter s.accounts
             services := (Router.dispatch r.type r.answers r.locals s.services session r.data
               r.reqLen).services
             session := AList.insert r.connection (Router.dispatch r.type r.answers r.locals
               s.services session r.data r.reqLen).session s.session } := by
  unfold step at h
  dsimp only at h
  cases hsession : s.session.lookup r.connection with
  | none =>
      rw [hsession] at h
      cases h
  | some session =>
      rw [hsession] at h
      dsimp only at h
      split_ifs at h with hconsistent
      exact ⟨session, rfl, hconsistent, (Option.some.inj h).symm⟩

/-- The id that a login puts into the session is that of the table. -/
theorem names_loginId {s : Sessions} {r : Incoming} (hknown : s.services.users.Known s.accounts)
    (hconsistent : r.Consistent s.accounts) (hok : s.LookupSucceeds (.request r))
    (hlogs : r.LogsIn) :
    (r.accountsAfter s.accounts).Names r.username
      (loginId r.answers s.services.users r.username) := by
  unfold loginId
  split_ifs with hcached
  · -- The cache does not know the name, so the id is the one of the lookup.
    by_cases hname : r.username = ""
    · exact hconsistent.2.2.symm.imp_right fun hzero => ⟨hname, hzero⟩
    · exact Or.inl (hconsistent.2.2.resolve_left (hok hname (Or.inr ⟨hlogs, hcached⟩)))
  · exact Or.inl (r.extends_accountsAfter _ _ _ (hknown.getId hcached))

/-- The id that a registration puts into the session is that of the table. -/
theorem names_registered {s : Sessions} {r : Incoming} (hconsistent : r.Consistent s.accounts)
    (hok : s.LookupSucceeds (.request r)) (hregisters : r.Registers) :
    (r.accountsAfter s.accounts).Names r.username (r.answers.getUserId r.username) := by
  by_cases hname : r.username = ""
  · exact hconsistent.2.2.symm.imp_right fun hzero => ⟨hname, hzero⟩
  · exact Or.inl (hconsistent.2.2.resolve_left (hok hname (Or.inl hregisters)))

/-- The cache after a request, and who its session is. -/
theorem known_request {s : Sessions} {r : Incoming} {session : Session}
    (hknown : s.services.users.Known s.accounts) (hconsistent : r.Consistent s.accounts)
    (hok : s.LookupSucceeds (.request r))
    (hown : session.isLoggedIn = true →
      s.accounts.id session.username = some session.userId) :
    let out := Router.dispatch r.type r.answers r.locals s.services session r.data r.reqLen
    out.services.users.Known (r.accountsAfter s.accounts) ∧
      (out.session.isLoggedIn = true →
        (r.accountsAfter s.accounts).id out.session.username = some out.session.userId) := by
  have heffect := dispatch_effect r.type r.answers s.services session r.data r.reqLen r.locals
  dsimp only
  generalize (Router.dispatch r.type r.answers r.locals s.services session r.data r.reqLen).session
    = session' at heffect ⊢
  generalize
    (Router.dispatch r.type r.answers r.locals s.services session r.data r.reqLen).services
    = services' at heffect ⊢
  have hext := r.extends_accountsAfter s.accounts
  have hknown' := hknown.extends' hext
  have hown' := fun hlogin => hext _ _ (hown hlogin)
  -- A session that is logged in has a name.
  have hlogged : ∀ {name : String} {uid : UInt64}, (r.accountsAfter s.accounts).Names name uid →
      (Session.mk name uid).isLoggedIn = true →
      (r.accountsAfter s.accounts).id name = some uid := by
    intro name uid hnames hlogin
    refine hnames.resolve_right ?_
    rintro ⟨rfl, -⟩
    exact absurd hlogin Bool.false_ne_true
  cases heffect with
  | nothing => exact ⟨hknown', hown'⟩
  | login h =>
      have hnames := names_loginId hknown hconsistent hok h
      refine ⟨?_, hlogged hnames⟩
      show (loginUsers ..).Known _
      unfold loginUsers
      split_ifs
      · exact hknown'.create hnames
      · exact hknown'
  | register h =>
      have hnames := names_registered hconsistent hok h
      exact ⟨hknown'.create hnames, hlogged hnames⟩
  | logout =>
      refine ⟨hknown', fun hlogin => ?_⟩
      exact absurd hlogin Bool.false_ne_true
  | deposit => exact ⟨hknown'.modify _ (fun _ => rfl) fun _ => rfl, hown'⟩
  | accepted | refused => exact ⟨hknown'.freeze _ _, hown'⟩
  | cancel => exact ⟨hknown', hown'⟩

/-- **The invariant is kept by every step whose lookup succeeds.** -/
theorem Invariant.step {s : Sessions} {a : Action} {s' : Sessions} (h : Invariant s)
    (hok : s.LookupSucceeds a) (hstep : Sessions.step s a = some s') : Invariant s' := by
  cases a with
  | connect k =>
      obtain rfl := Option.some.inj hstep
      refine ⟨h.known, UnorderedMap.forall_lookup_insert ?_ fun k' session _ => h.own k' session⟩
      exact fun hlogin => absurd hlogin Bool.false_ne_true
  | disconnect k =>
      obtain rfl := Option.some.inj hstep
      refine ⟨h.known, fun k' session hsession hlogin => ?_⟩
      rcases eq_or_ne k' k with rfl | hne
      · rw [AList.lookup_erase] at hsession
        cases hsession
      · exact h.own k' session ((AList.lookup_erase_ne hne).symm.trans hsession) hlogin
  | insertRow name uid =>
      unfold Sessions.step at hstep
      dsimp only at hstep
      split_ifs at hstep with hfree
      obtain rfl := Option.some.inj hstep
      have hext := s.accounts.extends_insert hfree
      exact ⟨h.known.extends' hext, fun k session hsession hlogin =>
        hext _ _ (h.own k session hsession hlogin)⟩
  | request r =>
      obtain ⟨session, hsession, hconsistent, rfl⟩ := step_request hstep
      obtain ⟨hknown, hown⟩ :=
        known_request h.known hconsistent hok (h.own r.connection session hsession)
      refine ⟨hknown, UnorderedMap.forall_lookup_insert hown fun k session' _ hsession' hlogin => ?_⟩
      exact r.extends_accountsAfter _ _ _ (h.own k session' hsession' hlogin)

theorem Invariant.ownAccounts {s : Sessions} (h : Invariant s) : OwnAccounts s where
  own := h.own
  account k session hsession hlogin acc hacc := by
    obtain ⟨huser, hnames⟩ := h.known.account _ _ hacc
    have hid := h.own k session hsession hlogin
    refine ⟨huser, s.accounts.unique _ _ _ (hnames.resolve_right ?_) hid⟩
    rintro ⟨-, hzero⟩
    exact s.accounts.positive _ _ hid hzero
  apart k session k' session' hsession hsession' hlogin hlogin' hne heq := by
    refine hne (s.accounts.unique _ _ _ (h.own k session hsession hlogin) ?_)
    rw [heq]
    exact h.own k' session' hsession' hlogin'
  acts _ _ _ _ _ _ _ _ := actsAs_dispatch ..
  reads _ _ _ _ _ _ _ _ hlogin hregister _ husers := reply_congr _ _ _ _ _ _ hlogin hregister husers
  outsider _ _ _ hlogin _ _ _ _ _ := untouched_of_not_loggedIn _ _ _ _ _ _ hlogin

/-! ### Runs -/

/-- **While lookups succeed, every session acts on its own account**, whatever the start
has read from the database. -/
theorem own_accounts (accounts : AccountIds) (services : Services) (tickers : TickerIndex)
    {accountRows : Option (List AccountTuple)} (holdingRows : Option (List HoldingTuple))
    (hrows : ∀ rows, accountRows = some rows →
      ∀ row ∈ rows, accounts.id row.username = some row.id)
    {as : List Action} {s : Sessions}
    (hrun : runs step (start accounts services tickers accountRows holdingRows) as = some s)
    (hok : Along step LookupSucceeds (start accounts services tickers accountRows holdingRows)
      as) : OwnAccounts s := by
  refine Invariant.ownAccounts ?_
  refine runs_induction_along (fun s a s' h hP hstep => Invariant.step h hP hstep) as ?_ hok hrun
  refine ⟨(UserManager.Known.new accounts).loadAllFromDB tickers holdingRows hrows, ?_⟩
  intro k session hsession
  cases hsession

/-- **A lookup that fails logs the session in with a wrong id.** -/
theorem wrong_id_of_lookup_failed {s s' : Sessions} {a : Action}
    (hfail : ¬ s.LookupSucceeds a) (hstep : step s a = some s') : ¬ OwnAccounts s' := by
  cases a with
  | connect | disconnect | insertRow => exact absurd trivial hfail
  | request r =>
      obtain ⟨session, -, -, rfl⟩ := step_request hstep
      unfold LookupSucceeds at hfail
      push Not at hfail
      obtain ⟨hname, hhow, hzero⟩ := hfail
      have hlogged : (Router.dispatch r.type r.answers r.locals s.services session r.data
          r.reqLen).session = ⟨r.username, 0⟩ := by
        rcases hhow with ⟨htype, hlong, hyes⟩ | ⟨⟨htype, hlong, hyes⟩, hcached⟩
        · -- Neither handler looks at the id before it stores it.
          rw [htype]
          simp only [Router.dispatch, RegisterUserHandler.handle]
          rw [if_neg (UInt32.not_lt.mpr hlong), if_pos hyes]
          exact congrArg _ hzero
        · rw [htype]
          simp only [Router.dispatch, LoginHandler.handle]
          rw [if_neg (UInt32.not_lt.mpr hlong), if_pos hyes]
          refine congrArg (Session.mk r.username) ?_
          exact (if_pos hcached).trans hzero
      intro h
      have hlogin : (Session.mk r.username 0).isLoggedIn = true := by
        simpa [Session.isLoggedIn] using hname
      rw [hlogged] at h
      have hid := h.own r.connection ⟨r.username, 0⟩
        ((UnorderedMap.lookup_insert_eq ..).trans (if_pos rfl)) hlogin
      exact (r.accountsAfter s.accounts).positive _ _ hid rfl

/-- A request on connection `k` with a name of one letter, for which `getUserId` answers
`found`; the repository says yes. -/
def requestOf (type : MsgType) (k : ℕ) (letter : Byte) (newId found : UInt64) : Action :=
  .request
    { connection := k
      type := type
      data := letter :: List.replicate 63 0
      reqLen := AuthRequest.size
      answers := { Answers.offline with
        checkLogin := fun _ _ => true
        registerUser := fun _ _ => true
        getUserId := fun _ => found }
      locals := ⟨Memory.zeroed, fun _ => Memory.zeroed⟩
      newId := newId }

/-- The server with an empty table. -/
def newServer : Sessions := start AccountIds.empty Services.new TickerIndex.new (some []) (some [])

/-- A user registers, leaves and comes back on another connection. -/
def backAgain : List Action :=
  [.connect 1, .connect 2, requestOf .register 1 97 7 7, requestOf .logout 1 97 0 0,
    requestOf .login 2 97 0 7]

theorem own_accounts_sample : OwnAccounts (runsTo step newServer backAgain) :=
  own_accounts AccountIds.empty Services.new TickerIndex.new (some [])
    (fun rows h row hrow => by
      obtain rfl := Option.some.inj h
      cases hrow)
    (runs_eq_runsTo step (by decide)) (by decide)

/-- Two users register while `getUserId` fails. -/
def twoUsers : List Action :=
  [.connect 1, .connect 2, requestOf .register 1 97 7 0, requestOf .register 2 98 8 0]

/-- Both are logged in with id `0` and share its account. -/
theorem shared_account :
    (runs step newServer twoUsers).isSome = true ∧
      ¬ OwnAccounts (runsTo step newServer twoUsers) := by
  refine ⟨by decide, fun h => ?_⟩
  have hfirst : (runsTo step newServer twoUsers).session.lookup 1 = some ⟨"a", 0⟩ := by decide
  have hsecond : (runsTo step newServer twoUsers).session.lookup 2 = some ⟨"b", 0⟩ := by decide
  exact h.apart 1 _ 2 _ hfirst hsecond (by decide) (by decide) (by decide) rfl

end Sessions

end ExchangeServer
