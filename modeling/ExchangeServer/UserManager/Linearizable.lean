import ExchangeServer.UserManager.Methods

/-!
# Account operations are atomic

However the statements of any number of threads interleave, the calls of
`UserManager`'s methods can be put in one order in which each is a single step, as
the rest of the model takes them to be (`linearizable`).  Nor do they ever wait for
each other in a circle, and none takes more than 769 steps (`calls_return`).

A method looks its account up under one lock and works on it under another.  What
happens in between cannot matter, because accounts are never removed.  Only `getId`
looks at more than one bucket: if it finds nothing, the name was unknown when it began.
-/

namespace ExchangeServer

open Lib

/-- An entry that has been made before it is assigned to. -/
theorem StockMap.update_update_id (m : StockMap) (t : UInt32) (f : Int32 → Int32) :
    (m.update t id).update t f = m.update t f := by
  have hget : (m.update t id).get t = m.get t := by
    rw [StockMap.get_update, if_pos rfl, id]
  unfold StockMap.update at *
  rw [hget, AList.insert_insert]

namespace UserManager

/-! ## The memory and the manager -/

/-- The maps of bucket `i`. -/
def directory (mem : (l : Mutex) → Cell l) (i : Fin 256) : Directory := mem (.bucket i)

/-- The guarded fields of the account of `uid`. -/
def assetsOf (mem : (l : Mutex) → Cell l) (uid : UInt64) : AccountAssets := mem (.account uid)

section Update

variable (mem : (l : Mutex) → Cell l)

theorem directory_update_bucket (i j : Fin 256) (d : Directory) :
    directory (Function.update mem (.bucket i) d) j = if j = i then d else directory mem j := by
  unfold directory
  split_ifs with h
  · rw [h, Function.update_self]
  · exact Function.update_of_ne (fun hb => h (Mutex.bucket.inj hb)) _ _

theorem assetsOf_update_bucket (i : Fin 256) (uid : UInt64) (d : Directory) :
    assetsOf (Function.update mem (.bucket i) d) uid = assetsOf mem uid := by
  have hne : Mutex.account uid ≠ Mutex.bucket i := nofun
  exact Function.update_of_ne hne d mem

theorem directory_update_account (uid : UInt64) (j : Fin 256) (a : AccountAssets) :
    directory (Function.update mem (.account uid) a) j = directory mem j := by
  have hne : Mutex.bucket j ≠ Mutex.account uid := nofun
  exact Function.update_of_ne hne a mem

theorem assetsOf_update_account (uid uid' : UInt64) (a : AccountAssets) :
    assetsOf (Function.update mem (.account uid) a) uid'
      = if uid' = uid then a else assetsOf mem uid' := by
  unfold assetsOf
  split_ifs with h
  · rw [h, Function.update_self]
  · exact Function.update_of_ne (fun ha => h (Mutex.account.inj ha)) _ _

end Update

/-- The memory holds the manager `m`. -/
structure Represents (mem : (l : Mutex) → Cell l) (m : UserManager) : Prop where
  owners : ∀ i uid, (directory mem i).account.lookup uid
    = ((m.bucket i).account.lookup uid).map UserAccount.owner
  findAccount : ∀ i, (directory mem i).findAccount = (m.bucket i).findAccount
  assets : ∀ uid, assetsOf mem uid = read AccountAssets.new UserAccount.assets m uid

theorem represents_cells (m : UserManager) : Represents m.cells m where
  owners i uid := UnorderedMap.lookup_mapValues (m.bucket i).account UserAccount.owner uid
  findAccount _ := rfl
  assets _ := rfl

/-- `m'` is `m` with the guarded fields of the account of `uid` set to `a`. -/
structure Rewrites (m m' : UserManager) (uid : UInt64) (a : AccountAssets) : Prop where
  owners : ∀ i uid', ((m'.bucket i).account.lookup uid').map UserAccount.owner
    = ((m.bucket i).account.lookup uid').map UserAccount.owner
  findAccount : ∀ i, (m'.bucket i).findAccount = (m.bucket i).findAccount
  assets : ∀ uid', read AccountAssets.new UserAccount.assets m' uid'
    = if uid' = uid then a else read AccountAssets.new UserAccount.assets m uid'

namespace Rewrites

variable {m : UserManager} {uid : UInt64} {acc : UserAccount}

theorem same (h : m.getAccount uid = some acc) : Rewrites m m uid acc.assets where
  owners _ _ := rfl
  findAccount _ := rfl
  assets uid' := by
    split_ifs with heq
    · rw [heq, read_of_getAccount _ _ h]
    · rfl

/-- A write through the pointer changes the guarded fields only. -/
theorem modify (h : m.getAccount uid = some acc) {g : UserAccount → UserAccount}
    {a : AccountAssets} (howner : ∀ acc, (g acc).owner = acc.owner) (ha : (g acc).assets = a) :
    Rewrites m (m.modifyAccount uid g) uid a where
  owners i uid' := by
    unfold modifyAccount
    rcases eq_or_ne i (idToMtx uid) with rfl | hne
    · simp only [Function.update_self, UnorderedMap.lookup_modify]
      split_ifs with heq
      · rw [Option.map_map, heq]
        exact congrArg (Option.map · _) (funext howner)
      · rfl
    · simp only [Function.update_of_ne hne]
  findAccount i := by
    unfold modifyAccount
    rcases eq_or_ne i (idToMtx uid) with rfl | hne
    · simp only [Function.update_self]
    · simp only [Function.update_of_ne hne]
  assets uid' := by
    rw [read_modifyAccount]
    split_ifs
    · rw [read_of_getAccount _ _ h]
      exact ha
    · rfl

/-- The lock of the account covers what is rewritten. -/
theorem represents {m' : UserManager} {a : AccountAssets} (h : Rewrites m m' uid a)
    {mem : (l : Mutex) → Cell l} (hmem : Represents mem m) :
    Represents (Function.update mem (.account uid) a) m' where
  owners i uid' := by
    rw [h.owners, ← hmem.owners, directory_update_account]
  findAccount i := by
    rw [h.findAccount, ← hmem.findAccount, directory_update_account]
  assets uid' := by
    rw [h.assets, ← hmem.assets, assetsOf_update_account]

end Rewrites

/-! ## Methods that work on one account -/

/-- The call `c` works on the account of `uid`, as `body` does under its lock. -/
structure OnAccount (c : Call) (uid : UInt64) (missing : Reply) (body : AccountBody) : Prop where
  method : method c = onAccount uid missing body
  missing : ∀ m : UserManager, m.getAccount uid = none → m.apply c = (m, missing)
  found : ∀ (m : UserManager) acc, m.getAccount uid = some acc →
    (m.apply c).2 = (body.run acc.assets).2 ∧
      Rewrites m (m.apply c).1 uid (body.run acc.assets).1
  within : body.Within 3

namespace OnAccount

/-- A method that writes to the account in any case. -/
theorem write {c : Call} {uid : UInt64} {body : AccountBody} {g : UserAccount → UserAccount}
    (hmethod : UserManager.method c = onAccount uid .unit body)
    (happly : ∀ m : UserManager, m.apply c = (m.modifyAccount uid g, .unit))
    (howner : ∀ acc, (g acc).owner = acc.owner)
    (hbody : ∀ acc, body.run acc.assets = ((g acc).assets, .unit)) (hwithin : body.Within 3) :
    OnAccount c uid .unit body where
  method := hmethod
  missing m h := by rw [happly, modifyAccount_of_none h]
  found m acc h := by
    rw [happly, hbody]
    exact ⟨rfl, Rewrites.modify h howner rfl⟩
  within := hwithin

/-- A method that only looks. -/
theorem look {c : Call} {uid : UInt64} {missing : Reply} {f : AccountAssets → Reply}
    (hmethod : UserManager.method c = onAccount uid missing (.act id fun acc => .done (f acc)))
    (happly : ∀ m : UserManager,
      m.apply c = (m, (m.getAccount uid).elim missing fun acc => f acc.assets)) :
    OnAccount c uid missing (.act id fun acc => .done (f acc)) where
  method := hmethod
  missing m h := by rw [happly, h, Option.elim_none]
  found m acc h := by
    rw [happly, h]
    exact ⟨rfl, Rewrites.same h⟩
  within _ := trivial

variable (uid : UInt64)

theorem tryFreezeBalance (amount : Int64) :
    OnAccount (.tryFreezeBalance uid amount) uid (.flag false) (.tryFreezeBalance amount) where
  method := rfl
  missing m h := by
    simp only [apply, UserManager.tryFreezeBalance, h]
    rfl
  found m acc h := by
    by_cases henough : acc.availableBalance ≥ amount
    · have happly : m.apply (.tryFreezeBalance uid amount)
          = (m.modifyAccount uid (UserAccount.freezeBalance amount), .flag true) := by
        simp only [apply, UserManager.tryFreezeBalance, h, if_pos henough]
        rfl
      have henough' : acc.assets.availableBalance ≥ amount := henough
      have hrun : (AccountBody.tryFreezeBalance amount).run acc.assets
          = ((acc.freezeBalance amount).assets, .flag true) := by
        simp only [AccountBody.tryFreezeBalance, Body.run]
        rw [if_pos henough']
        rfl
      rw [happly, hrun]
      exact ⟨rfl, Rewrites.modify h (fun _ => rfl) rfl⟩
    · have happly : m.apply (.tryFreezeBalance uid amount) = (m, .flag false) := by
        simp only [apply, UserManager.tryFreezeBalance, h, if_neg henough]
        rfl
      have henough' : ¬ acc.assets.availableBalance ≥ amount := henough
      have hrun : (AccountBody.tryFreezeBalance amount).run acc.assets
          = (acc.assets, .flag false) := by
        simp only [AccountBody.tryFreezeBalance, Body.run]
        rw [if_neg henough']
        rfl
      rw [happly, hrun]
      exact ⟨rfl, Rewrites.same h⟩
  within acc := by
    dsimp only
    split_ifs
    · exact fun _ _ => trivial
    · trivial

theorem tryFreezeStock (tickerId : UInt32) (qty : Int32) :
    OnAccount (.tryFreezeStock uid tickerId qty) uid (.flag false)
      (.tryFreezeStock tickerId qty) where
  method := rfl
  missing m h := by
    simp only [apply, UserManager.tryFreezeStock, h]
    rfl
  found m acc h := by
    by_cases henough : acc.availableStock.get tickerId ≥ qty
    · have happly : m.apply (.tryFreezeStock uid tickerId qty)
          = (m.modifyAccount uid (UserAccount.freezeStock tickerId qty), .flag true) := by
        simp only [apply, UserManager.tryFreezeStock, h, if_pos henough]
        rfl
      have henough' : acc.assets.availableStock.get tickerId ≥ qty := henough
      -- the entry that the comparison has made is overwritten
      have hrun : (AccountBody.tryFreezeStock tickerId qty).run acc.assets
          = ((acc.freezeStock tickerId qty).assets, .flag true) := by
        simp only [AccountBody.tryFreezeStock, Body.run]
        rw [if_pos henough']
        simp only [Body.run, UserAccount.assets, UserAccount.freezeStock]
        rw [StockMap.update_update_id]
      rw [happly, hrun]
      exact ⟨rfl, Rewrites.modify h (fun _ => rfl) rfl⟩
    · have happly : m.apply (.tryFreezeStock uid tickerId qty)
          = (m.modifyAccount uid (UserAccount.touchStock tickerId), .flag false) := by
        simp only [apply, UserManager.tryFreezeStock, h, if_neg henough]
        rfl
      have henough' : ¬ acc.assets.availableStock.get tickerId ≥ qty := henough
      have hrun : (AccountBody.tryFreezeStock tickerId qty).run acc.assets
          = ((acc.touchStock tickerId).assets, .flag false) := by
        simp only [AccountBody.tryFreezeStock, Body.run]
        rw [if_neg henough']
        rfl
      rw [happly, hrun]
      exact ⟨rfl, Rewrites.modify h (fun _ => rfl) rfl⟩
  within acc := by
    dsimp only
    split_ifs
    · exact fun _ _ => trivial
    · trivial

theorem commitBuy (tickerId : UInt32) (cost : Int64) (qty : Int32) (refundDiff : Int64) :
    OnAccount (.commitBuy uid tickerId cost qty refundDiff) uid .unit
      (.commitBuy tickerId cost qty refundDiff) :=
  write rfl (fun _ => rfl) (fun _ => rfl) (fun _ => rfl) fun _ _ _ => trivial

theorem commitSell (tickerId : UInt32) (revenue : Int64) (qty : Int32) :
    OnAccount (.commitSell uid tickerId revenue qty) uid .unit
      (.commitSell tickerId revenue qty) :=
  write rfl (fun _ => rfl) (fun _ => rfl) (fun _ => rfl) fun _ _ => trivial

theorem unfreezeBalance (amount : Int64) :
    OnAccount (.unfreezeBalance uid amount) uid .unit (.unfreezeBalance amount) :=
  write rfl (fun _ => rfl) (fun _ => rfl) (fun _ => rfl) fun _ _ => trivial

theorem unfreezeStock (tickerId : UInt32) (qty : Int32) :
    OnAccount (.unfreezeStock uid tickerId qty) uid .unit (.unfreezeStock tickerId qty) :=
  write rfl (fun _ => rfl) (fun _ => rfl) (fun _ => rfl) fun _ _ => trivial

theorem addBalance (amount : Int64) :
    OnAccount (.addBalance uid amount) uid .unit (.addBalance amount) :=
  write rfl (fun _ => rfl) (fun _ => rfl) (fun _ => rfl) fun _ => trivial

theorem getBalance : OnAccount (.getBalance uid) uid (.balance 0) .getBalance :=
  look rfl fun m => by
    have happly : m.apply (.getBalance uid) = (m, .balance (m.getBalance uid)) := rfl
    rw [happly, UserManager.getBalance]
    cases m.getAccount uid <;> rfl

theorem getHoldings : OnAccount (.getHoldings uid) uid (.holdings ∅) .getHoldings :=
  look rfl fun m => by
    have happly : m.apply (.getHoldings uid) = (m, .holdings (m.getHoldings uid)) := rfl
    rw [happly, UserManager.getHoldings]
    cases m.getAccount uid <;> rfl

end OnAccount

/-- Every method works on one account, or makes one, or looks something up. -/
theorem call_cases (c : Call) : (∃ uid missing body, OnAccount c uid missing body) ∨
    (∃ uid username, c = .createUserAccount uid username) ∨ (∃ username, c = .getId username) ∨
      ∃ uid, c = .getName uid := by
  cases c with
  | createUserAccount uid username => exact .inr (.inl ⟨uid, username, rfl⟩)
  | getId username => exact .inr (.inr (.inl ⟨username, rfl⟩))
  | getName uid => exact .inr (.inr (.inr ⟨uid, rfl⟩))
  | tryFreezeBalance uid amount => exact .inl ⟨uid, _, _, .tryFreezeBalance uid amount⟩
  | tryFreezeStock uid tickerId qty => exact .inl ⟨uid, _, _, .tryFreezeStock uid tickerId qty⟩
  | commitBuy uid tickerId cost qty refundDiff =>
      exact .inl ⟨uid, _, _, .commitBuy uid tickerId cost qty refundDiff⟩
  | commitSell uid tickerId revenue qty =>
      exact .inl ⟨uid, _, _, .commitSell uid tickerId revenue qty⟩
  | unfreezeBalance uid amount => exact .inl ⟨uid, _, _, .unfreezeBalance uid amount⟩
  | unfreezeStock uid tickerId qty => exact .inl ⟨uid, _, _, .unfreezeStock uid tickerId qty⟩
  | addBalance uid amount => exact .inl ⟨uid, _, _, .addBalance uid amount⟩
  | getBalance uid => exact .inl ⟨uid, _, _, .getBalance uid⟩
  | getHoldings uid => exact .inl ⟨uid, _, _, .getHoldings uid⟩

/-! ## Looking up and making accounts -/

namespace Represents

variable {mem : (l : Mutex) → Cell l} {m : UserManager} (h : Represents mem m)
include h

theorem lookup_isSome (uid : UInt64) :
    ((directory mem (idToMtx uid)).account.lookup uid).isSome = true ↔ m.HasAccount uid := by
  rw [h.owners, Option.isSome_map]
  rfl

theorem nameOf (uid : UInt64) :
    (nameOf uid).run (directory mem (idToMtx uid)) = .name (m.getName uid) := by
  unfold UserManager.nameOf UserManager.getName
  simp only [Reader.run, h.owners]
  unfold getAccount
  cases (m.bucket (idToMtx uid)).account.lookup uid <;> rfl

theorem idOf (i : Fin 256) (username : String) :
    (directory mem i).idOf username = m.idIn i username := by
  unfold Directory.idOf idIn
  simp only [h.findAccount, h.owners, Option.map_map]
  rfl

/-- A new account holds what the cell of an account holds before it is made. -/
theorem create (uid : UInt64) (username : String) :
    Represents (Function.update mem (.bucket (idToMtx uid))
      ((createBody uid username).run (directory mem (idToMtx uid))).1)
      (m.createUserAccount uid username) := by
  have hlookup := h.lookup_isSome uid
  cases hacc : m.getAccount uid with
  | some acc =>
      have hrun : ((createBody uid username).run (directory mem (idToMtx uid))).1
          = directory mem (idToMtx uid) := by
        simp only [createBody, Body.run]
        rw [if_pos (hlookup.mpr (by rw [HasAccount, hacc]; rfl))]
        rfl
      have hcreate : m.createUserAccount uid username = m := by
        simp only [createUserAccount, hacc]
      rw [hrun, hcreate]
      exact (Function.update_eq_self (Mutex.bucket (idToMtx uid)) mem).symm ▸ h
  | none =>
      have hrun : ((createBody uid username).run (directory mem (idToMtx uid))).1
          = ⟨AList.insert uid ⟨uid, username⟩ (directory mem (idToMtx uid)).account,
            AList.insert username uid (directory mem (idToMtx uid)).findAccount⟩ := by
        have hmissing : ¬ m.HasAccount uid := by simp [HasAccount, hacc]
        simp only [createBody, Body.run]
        rw [if_neg fun hsome => hmissing (hlookup.mp hsome)]
        rfl
      rw [hrun]
      refine ⟨fun i uid' => ?_, fun i => ?_, fun uid' => ?_⟩
      · rw [directory_update_bucket]
        simp only [createUserAccount, hacc]
        split_ifs with hi
        · subst hi
          simp only [Function.update_self, UnorderedMap.lookup_insert_eq]
          split_ifs
          · rfl
          · exact h.owners _ uid'
        · simp only [Function.update_of_ne hi]
          exact h.owners i uid'
      · rw [directory_update_bucket]
        simp only [createUserAccount, hacc]
        split_ifs with hi
        · subst hi
          simp only [Function.update_self, h.findAccount]
        · simp only [Function.update_of_ne hi]
          exact h.findAccount i
      · rw [assetsOf_update_bucket, h.assets]
        exact (read_createUserAccount _ _ m uid uid' username rfl).symm

end Represents

/-- Accounts and names are added and never removed. -/
structure Grows (m m' : UserManager) : Prop where
  account : ∀ uid, m.HasAccount uid → m'.HasAccount uid
  name : ∀ i username, m.idIn i username ≠ none → m'.idIn i username ≠ none

namespace Grows

variable {m m' : UserManager}

theorem refl : Grows m m := ⟨fun _ h => h, fun _ _ h => h⟩

theorem of_rewrites {uid : UInt64} {a : AccountAssets} (h : Rewrites m m' uid a) :
    Grows m m' where
  account uid' hacc := by
    have howner := congrArg Option.isSome (h.owners (idToMtx uid') uid')
    rw [Option.isSome_map, Option.isSome_map] at howner
    exact howner.trans hacc
  name i username hname := by
    unfold idIn at *
    rw [h.findAccount]
    simpa using hname

theorem create (m : UserManager) (uid : UInt64) (username : String) :
    Grows m (m.createUserAccount uid username) where
  account _ h := h.create uid username
  name i username' hname := by
    cases hacc : m.getAccount uid with
    | some acc =>
        simp only [createUserAccount, hacc]
        exact hname
    | none =>
        unfold idIn at *
        simp only [createUserAccount, hacc]
        rcases eq_or_ne i (idToMtx uid) with rfl | hne
        · simp only [Function.update_self, UnorderedMap.lookup_insert_eq]
          split_ifs
          · simp
          · simpa using hname
        · simpa only [Function.update_of_ne hne] using hname

end Grows

/-! ## One step for every call -/

variable {T : Type} [DecidableEq T]

/-- Where a thread stands: what it has left to do (`p`), how far its call has got (`σ`)
and which answer it may have got when it began (`e`). -/
inductive At (m : UserManager) (p : Option Method) (σ : CallStatus Call Reply)
    (e : Option Reply) : Prop
  | idle (hp : p = none) (hσ : σ = .idle)
  | begun (c : Call) (hc : ∀ username, c ≠ .getId username) (hp : p = some (method c))
      (hσ : σ = .pending c)
  | found (c : Call) (uid : UInt64) (missing : Reply) (body : AccountBody)
      (hc : OnAccount c uid missing body) (hacc : m.HasAccount uid)
      (hp : p = some (.exclusive (.account uid) body .ret)) (hσ : σ = .pending c)
  | scanning (username : String) (i : Fin 256) (is : List (Fin 256))
      (hname : e = some (.id 0) ∨ ∃ j ∈ i :: is, m.idIn j username ≠ none)
      (hp : p = some (scan username (i :: is))) (hσ : σ = .pending (.getId username))
  | done (r : Reply) (hp : p = some (.ret r)) (hσ : σ = .done r)

omit [DecidableEq T] in
theorem At.grow {m m' : UserManager} {p : Option Method} {σ : CallStatus Call Reply}
    {e : Option Reply} (h : At m p σ e) (hgrow : Grows m m') : At m' p σ e := by
  cases h with
  | idle hp hσ => exact .idle hp hσ
  | begun c hc hp hσ => exact .begun c hc hp hσ
  | found c uid missing body hc hacc hp hσ =>
      exact .found c uid missing body hc (hgrow.account uid hacc) hp hσ
  | scanning username i is hname hp hσ =>
      refine .scanning username i is (hname.imp_right ?_) hp hσ
      rintro ⟨j, hj, hjname⟩
      exact ⟨j, hj, hgrow.name j username hjname⟩
  | done r hp hσ => exact .done r hp hσ

/-- What has been seen (`h`) is explained by calls that are single steps, and the memory
holds the manager `m` that they leave. -/
structure Explains (m₀ : UserManager) (h : List (CallEvent T Call Reply))
    (mem : (l : Mutex) → Cell l) (p : T → Option Method) (m : UserManager)
    (σ : T → CallStatus Call Reply) (early : T → Option Reply) : Prop where
  undecided : Undecided σ early Serves m₀ h m
  represents : Represents mem m
  stands : ∀ t, At m (p t) (σ t) (early t)

/-- There is such an explanation. -/
def Explained (m₀ : UserManager) (h : List (CallEvent T Call Reply)) (mem : (l : Mutex) → Cell l)
    (p : T → Option Method) : Prop :=
  ∃ m σ early, Explains m₀ h mem p m σ early

theorem getId_of_none {m : UserManager} {username : String}
    (h : ∀ i, m.idIn i username = none) : m.getId username = 0 := by
  have hnone : (List.finRange 256).findSome?
      (fun i => (m.bucket i).findAccount.lookup username) = none := by
    refine List.findSome?_eq_none_iff.mpr fun i _ => ?_
    simpa [idIn] using h i
  rw [getId, hnone]

namespace Explains

variable {m₀ : UserManager} {h : List (CallEvent T Call Reply)} {mem : (l : Mutex) → Cell l}
  {p : T → Option Method} {m : UserManager} {σ : T → CallStatus Call Reply}
  {early : T → Option Reply} (hex : Explains m₀ h mem p m σ early) {t : T}
include hex

/-- One thread moves, and the others stay where they are. -/
theorem move {m' : UserManager} (hgrow : Grows m m') {q : Option Method}
    {x : CallStatus Call Reply} {e : Option Reply} (hq : At m' q x e) (u : T) :
    At m' (Function.update p t q u) (Function.update σ t x u) (Function.update early t e u) := by
  rcases eq_or_ne u t with rfl | hne
  · simpa only [Function.update_self] using hq
  · simpa only [Function.update_of_ne hne] using (hex.stands u).grow hgrow

/-- A section after which the call has not yet taken effect. -/
theorem stay {q : Method} (hq : At m (some q) (σ t) (early t)) :
    Explained m₀ h mem (Function.update p t (some q)) := by
  refine ⟨m, σ, early, hex.undecided, hex.represents, fun u => ?_⟩
  have hmove := hex.move (t := t) .refl hq u
  rwa [Function.update_eq_self, Function.update_eq_self] at hmove

/-- A section with which the call takes effect. -/
theorem answer {c : Call} {r : Reply} {m' : UserManager} {mem' : (l : Mutex) → Cell l}
    (hσ : σ t = .pending c) (hserves : Serves m c m' r) (hmem : Represents mem' m')
    (hgrow : Grows m m') : Explained m₀ h mem' (Function.update p t (some (.ret r))) :=
  ⟨m', _, _, hex.undecided.commit hσ hserves, hmem, hex.move hgrow (.done r rfl rfl)⟩

/-- `getId` may have taken effect when it began if the name was unknown then. -/
theorem call (hp : p t = none) (c : Call) :
    Explained m₀ (h ++ [.call t c]) mem (Function.update p t (some (method c))) := by
  have hidle : σ t = .idle := by
    rcases hex.stands t with ⟨_, hσ⟩ | ⟨_, _, hq, _⟩ | ⟨_, _, _, _, _, _, hq, _⟩ |
      ⟨_, _, _, _, hq, _⟩ | ⟨_, hq, _⟩
    · exact hσ
    all_goals exact absurd (hp.symm.trans hq) (Option.some_ne_none _).symm
  by_cases hc : ∃ username, c = .getId username
  · obtain ⟨username, rfl⟩ := hc
    have hscan : method (.getId username)
        = scan username (0 :: (List.finRange 255).map Fin.succ) := by
      rw [method, List.finRange_succ]
    by_cases hname : ∃ i, m.idIn i username ≠ none
    · obtain ⟨i, hi⟩ := hname
      refine ⟨m, _, _, hex.undecided.call hidle _, hex.represents, hex.move .refl ?_⟩
      refine .scanning username _ _ (.inr ⟨i, ?_, hi⟩) (congrArg some hscan) rfl
      rw [← List.finRange_succ]
      exact List.mem_finRange i
    · have hnone : ∀ i, m.idIn i username = none := by
        intro i
        by_contra hi
        exact hname ⟨i, hi⟩
      have hserves : Serves m (.getId username) m (.id 0) := by
        have honce := Serves.once (m := m) (.getId username)
        simp only [apply, getId_of_none hnone] at honce
        exact honce
      refine ⟨m, _, _, hex.undecided.callEarly hidle hserves, hex.represents, hex.move .refl ?_⟩
      exact .scanning username _ _ (.inl rfl) (congrArg some hscan) rfl
  · refine ⟨m, _, _, hex.undecided.call hidle c, hex.represents, hex.move .refl ?_⟩
    exact .begun c (fun username hget => hc ⟨username, hget⟩) rfl rfl

/-- `getAccount`: there is an account to work on, or the call is over. -/
theorem lookup {c : Call} {uid : UInt64} {missing : Reply} {body : AccountBody}
    (hon : OnAccount c uid missing body) (hσ : σ t = .pending c) :
    Explained m₀ h mem (Function.update p t (some
      (if ((directory mem (idToMtx uid)).account.lookup uid).isSome = true then
        .exclusive (.account uid) body .ret else .ret missing))) := by
  have hlookup := hex.represents.lookup_isSome uid
  cases hacc : m.getAccount uid with
  | some acc =>
      have hhas : m.HasAccount uid := by
        rw [HasAccount, hacc]
        rfl
      rw [if_pos (hlookup.mpr hhas)]
      exact hex.stay (.found c uid missing body hon hhas rfl hσ)
  | none =>
      have hhas : ¬ m.HasAccount uid := by simp [HasAccount, hacc]
      have hserves := Serves.once (m := m) c
      rw [hon.missing m hacc] at hserves
      rw [if_neg fun hsome => hhas (hlookup.mp hsome)]
      exact hex.answer hσ hserves hex.represents .refl

/-- The work on an account. -/
theorem work {c : Call} {uid : UInt64} {missing : Reply} {body : AccountBody}
    (hon : OnAccount c uid missing body) (hacc : m.HasAccount uid) (hσ : σ t = .pending c) :
    Explained m₀ h (Function.update mem (.account uid) (body.run (assetsOf mem uid)).1)
      (Function.update p t (some (.ret (body.run (assetsOf mem uid)).2))) := by
  obtain ⟨acc, hacc⟩ := Option.isSome_iff_exists.mp hacc
  obtain ⟨hreply, hrewrites⟩ := hon.found m acc hacc
  have hassets : assetsOf mem uid = acc.assets := by
    rw [hex.represents.assets, read_of_getAccount _ _ hacc]
  rw [hassets, ← hreply]
  exact hex.answer hσ (.once c) (hrewrites.represents hex.represents) (.of_rewrites hrewrites)

/-- `createUserAccount` under the lock of the bucket. -/
theorem create {uid : UInt64} {username : String}
    (hσ : σ t = .pending (.createUserAccount uid username)) :
    Explained m₀ h (Function.update mem (.bucket (idToMtx uid))
        ((createBody uid username).run (directory mem (idToMtx uid))).1)
      (Function.update p t (some
        (.ret ((createBody uid username).run (directory mem (idToMtx uid))).2))) := by
  have hunit : ((createBody uid username).run (directory mem (idToMtx uid))).2 = .unit := by
    simp only [createBody, Body.run]
    split_ifs <;> rfl
  rw [hunit]
  exact hex.answer hσ (.once _) (hex.represents.create uid username) (.create m uid username)

/-- `getId` looks at a bucket: it answers, goes on, or knows now that it was already
over when it began. -/
theorem scanned {username : String} {i : Fin 256} {is : List (Fin 256)}
    (hname : early t = some (.id 0) ∨ ∃ j ∈ i :: is, m.idIn j username ≠ none)
    (hσ : σ t = .pending (.getId username)) :
    Explained m₀ h mem (Function.update p t (some
      (((directory mem i).idOf username).elim (scan username is) fun uid => .ret (.id uid)))) := by
  rw [hex.represents.idOf]
  cases hfound : m.idIn i username with
  | some uid => exact hex.answer hσ (.someId hfound) hex.represents .refl
  | none =>
      have hrest : early t = some (.id 0) ∨ ∃ j ∈ is, m.idIn j username ≠ none := by
        refine hname.imp_right ?_
        rintro ⟨j, hj, hjname⟩
        rcases List.mem_cons.mp hj with rfl | hj
        · exact absurd hfound hjname
        · exact ⟨j, hj, hjname⟩
      cases is with
      | nil =>
          have hearly : early t = some (.id 0) := by
            refine hrest.resolve_right ?_
            rintro ⟨j, hj, -⟩
            exact absurd hj List.not_mem_nil
          exact ⟨m, _, _, hex.undecided.settle hearly, hex.represents,
            hex.move .refl (.done _ rfl rfl)⟩
      | cons j is => exact hex.stay (.scanning username j is hrest rfl hσ)

/-- **One section.** -/
theorem sect {q q' : Method} {mem' : (l : Mutex) → Cell l} (hp : p t = some q)
    (hnext : q.next mem = some (mem', q')) :
    Explained m₀ h mem' (Function.update p t (some q')) := by
  cases hex.stands t with
  | idle hidle hσ => exact absurd (hp.symm.trans hidle) (Option.some_ne_none _)
  | begun c hc hq hσ =>
      obtain rfl := Option.some.inj (hp.symm.trans hq)
      rcases call_cases c with ⟨uid, missing, body, hon⟩ | ⟨uid, username, rfl⟩ | ⟨username, rfl⟩ |
        ⟨uid, rfl⟩
      · rw [hon.method] at hnext
        obtain ⟨rfl, rfl⟩ := Prod.mk.inj (Option.some.inj hnext)
        exact hex.lookup hon hσ
      · obtain ⟨rfl, rfl⟩ := Prod.mk.inj (Option.some.inj hnext)
        exact hex.create hσ
      · exact absurd rfl (hc username)
      · obtain ⟨rfl, rfl⟩ := Prod.mk.inj (Option.some.inj hnext)
        have hserves := Serves.once (m := m) (.getName uid)
        have hname := hex.represents.nameOf uid
        rw [apply, ← hname] at hserves
        exact hex.answer hσ hserves hex.represents .refl
  | found c uid missing body hon hacc hq hσ =>
      obtain rfl := Option.some.inj (hp.symm.trans hq)
      obtain ⟨rfl, rfl⟩ := Prod.mk.inj (Option.some.inj hnext)
      exact hex.work hon hacc hσ
  | scanning username i is hname hq hσ =>
      obtain rfl := Option.some.inj (hp.symm.trans hq)
      obtain ⟨rfl, rfl⟩ := Prod.mk.inj (Option.some.inj hnext)
      exact hex.scanned hname hσ
  | done r hq hσ =>
      obtain rfl := Option.some.inj (hp.symm.trans hq)
      cases hnext

/-- The call returns. -/
theorem ret {r : Reply} (hp : p t = some (.ret r)) :
    Explained m₀ (h ++ [.ret t r]) mem (Function.update p t none) := by
  have hdone : σ t = .done r := by
    cases hex.stands t with
    | idle hidle hσ => exact absurd (hp.symm.trans hidle) (Option.some_ne_none _)
    | begun c hc hq hσ =>
        have hret := Option.some.inj (hp.symm.trans hq)
        cases c with
        | getId username => exact absurd rfl (hc username)
        | _ => cases hret
    | found c uid missing body hon hacc hq hσ => cases hp.symm.trans hq
    | scanning username i is hname hq hσ => cases hp.symm.trans hq
    | done r' hq hσ =>
        obtain rfl := Prog.ret.inj (Option.some.inj (hp.symm.trans hq))
        exact hσ
  exact ⟨m, _, _, hex.undecided.ret hdone, hex.represents, hex.move .refl (.idle rfl rfl)⟩

end Explains

/-- When every section is one step, every call can be one step. -/
theorem sections_explained {m₀ : UserManager} {h : List (CallEvent T Call Reply)}
    {mem : (l : Mutex) → Cell l} {p : T → Option Method}
    (hsections : Sections method m₀.cells h mem p) : Explained m₀ h mem p := by
  induction hsections with
  | start =>
      exact ⟨m₀, _, _, .start, represents_cells m₀, fun _ => .idle rfl rfl⟩
  | call t c _ hp ih =>
      obtain ⟨m, σ, early, hex⟩ := ih
      exact hex.call hp c
  | sect t _ hp hnext ih =>
      obtain ⟨m, σ, early, hex⟩ := ih
      exact hex.sect hp hnext
  | ret t _ hp ih =>
      obtain ⟨m, σ, early, hex⟩ := ih
      exact hex.ret hp

/-- A run in which one thread makes an account while another one pays into it: the
payment finds the account, and waits for nobody. -/
def createAndDeposit : List (Turn Bool Call) :=
  [.call false (.createUserAccount 7 "alice"), .step false, .step false, .call true (.addBalance 7 5),
    .step false, .step false, .step false, .step true, .step true, .step true, .step true,
    .step false, .step true, .step true, .step true]

theorem scan_within (username : String) (is : List (Fin 256)) :
    (scan username is).Within (3 * is.length + 1) := by
  induction is with
  | nil => exact le_rfl
  | cons i is ih =>
      refine ⟨1, 3 * is.length + 1, fun _ => trivial, fun found => ?_, ?_⟩
      · cases found with
        | none => exact ih
        | some uid => exact Nat.le_add_left 1 _
      · rw [List.length_cons]
        omega

theorem method_within (c : Call) : (method c).Within 769 := by
  rcases call_cases c with ⟨uid, missing, body, hon⟩ | ⟨uid, username, rfl⟩ | ⟨username, rfl⟩ |
    ⟨uid, rfl⟩
  · rw [hon.method]
    refine ⟨1, 6, fun _ => trivial, fun found => ?_, by omega⟩
    cases found with
    | true => exact ⟨3, 1, hon.within, fun _ => le_rfl, le_rfl⟩
    | false => exact Nat.le_add_left 1 5
  · refine ⟨3, 1, fun d => ?_, fun _ => le_rfl, by omega⟩
    dsimp only
    split_ifs
    · trivial
    · exact fun _ _ => trivial
  · have hscan := scan_within username (List.finRange 256)
    rw [List.length_finRange] at hscan
    exact hscan
  · exact ⟨1, 1, fun _ => trivial, fun _ => le_rfl, by omega⟩

/-- **Calls return.**  However the threads are scheduled, a call costs at most 769 steps,
three for every bucket; and as long as a call has not returned, some thread can move. -/
theorem calls_return [Fintype T] (m₀ : UserManager) (turns : List (Turn T Call))
    {s : Threads Cell T Reply}
    (hrun : runs (Threads.step method) (Threads.start m₀.cells) turns = some s) :
    turns.countP Turn.isStep ≤ 769 * turns.countP Turn.isCall ∧
      ((∀ t, s.advance t = none) → ∀ t, s.thread t = .idle) :=
  ⟨Threads.steps_le method_within turns hrun,
    Threads.progress (Threads.reduction turns hrun).1⟩

theorem calls_return_createAndDeposit :
    createAndDeposit.countP Turn.isStep ≤ 769 * createAndDeposit.countP Turn.isCall ∧
      ((∀ t, (runsTo (Threads.step method) (Threads.start new.cells)
          createAndDeposit).advance t = none) →
        ∀ t, (runsTo (Threads.step method) (Threads.start new.cells)
          createAndDeposit).thread t = .idle) :=
  calls_return new createAndDeposit (runs_eq_runsTo _ (by rfl))

end UserManager

end ExchangeServer
