import ExchangeServer.Handlers.Basic

/-!
# Which bytes become a user name

`AuthRequest` has two fields of 32 bytes, and the handlers make a C string of each.
A field that is full has no `NUL`, so the string runs on: the user name into the
password, the password into whatever follows in the buffer of the session.

`credential_from_field_iff` says that a credential is made of its own field exactly when
the field has a `NUL`.
-/

namespace ExchangeServer

open Lib

/-- One of the two fields. -/
inductive Credential where
  | username
  | password
deriving DecidableEq, Repr

namespace Credential

/-- Where the field begins. -/
def offset : Credential → ℕ
  | username => 0
  | password => 32

/-- The C string that the handlers make of it. -/
def ofData : Credential → List Byte → String
  | username => AuthRequest.username
  | password => AuthRequest.password

/-- What a call passes as this credential. -/
def inCall : Credential → RepositoryCall → Option String
  | username, .checkLogin u _ | username, .registerUser u _ | username, .getUserId u => some u
  | password, .checkLogin _ p | password, .registerUser _ p => some p
  | _, _ => none

theorem ofData_eq (k : Credential) (data : List Byte) :
    k.ofData data = ofBytes (cString (data.drop k.offset)) := by
  cases k <;> rfl

end Credential

/-- The values that a handler passes to the repository as this credential. -/
def Handled.passed (h : Handled) (k : Credential) : List String :=
  (h.calls.filterMap k.inCall).dedup

/-- Login and registration pass the C strings of the two fields. -/
theorem passed_eq {type : MsgType} (htype : type = .login ∨ type = .register) (answers : Answers)
    (locals : Locals) (services : Services) (session : Session) (data : List Byte)
    {reqLen : UInt32} (hlong : AuthRequest.size ≤ reqLen) (k : Credential) :
    (Router.dispatch type answers locals services session data reqLen).passed k
      = [k.ofData data] := by
  have hlong' : ¬ reqLen < AuthRequest.size := UInt32.not_lt.mpr hlong
  rcases htype with rfl | rfl
  · simp only [Router.dispatch, LoginHandler.handle, if_neg hlong']
    split_ifs <;> cases k <;>
      simp [Handled.passed, Credential.inCall, Credential.ofData, List.dedup_cons_of_mem]
  · simp only [Router.dispatch, RegisterUserHandler.handle, if_neg hlong']
    split_ifs <;> cases k <;>
      simp [Handled.passed, Credential.inCall, Credential.ofData, List.dedup_cons_of_mem]

/-- A request whose field is `field`: `before` is what precedes it, and `rest` everything
in the buffer behind it. -/
structure Around (k : Credential) (field before rest : List Byte) (reqLen : UInt32) : Prop where
  start : before.length = k.offset
  long : AuthRequest.size ≤ reqLen
  inside : reqLen.toNat ≤ (before ++ field ++ rest).length

/-- The credential is the field, up to its first `NUL` or all of it. -/
def FromOwnField (k : Credential) (field : List Byte) : Prop :=
  ∀ type, type = .login ∨ type = .register → ∀ answers locals services session before rest reqLen,
    Around k field before rest reqLen →
      (Router.dispatch type answers locals services session (before ++ field ++ rest)
        reqLen).passed k = [ofBytes (cString field)]

/-- The credential does not depend on what follows the field. -/
def IndependentOfRest (k : Credential) (field : List Byte) : Prop :=
  ∀ type, type = .login ∨ type = .register →
    ∀ answers locals services session before rest rest' reqLen,
      Around k field before rest reqLen → Around k field before rest' reqLen →
        (Router.dispatch type answers locals services session (before ++ field ++ rest)
          reqLen).passed k
        = (Router.dispatch type answers locals services session (before ++ field ++ rest')
          reqLen).passed k

/-- A C string ends inside a field that has a `NUL`. -/
theorem cString_append_of_mem {field : List Byte} (h : 0 ∈ field) (rest : List Byte) :
    cString (field ++ rest) = cString field := by
  induction field with
  | nil => cases h
  | cons b field ih =>
      unfold cString at ih ⊢
      rw [List.cons_append, List.takeWhile_cons, List.takeWhile_cons]
      split_ifs with hb
      · have hne : b ≠ 0 := by simpa using hb
        rw [ih ((List.mem_cons.mp h).resolve_left hne.symm)]
      · rfl

/-- It runs on through one that has none. -/
theorem cString_append_of_notMem {field : List Byte} (h : 0 ∉ field) (rest : List Byte) :
    cString (field ++ rest) = field ++ cString rest := by
  have hall : ∀ b ∈ field, decide (b ≠ 0) = true := by
    intro b hb
    rw [decide_eq_true_iff]
    rintro rfl
    exact h hb
  unfold cString
  exact List.takeWhile_append_of_pos hall

theorem length_ofBytes (bs : List Byte) : (ofBytes bs).length = bs.length := by
  rw [ofBytes, String.length_ofList, List.length_map]

/-- The credential of a field among other bytes. -/
theorem Credential.ofData_append (k : Credential) {before : List Byte}
    (hstart : before.length = k.offset) (field rest : List Byte) :
    k.ofData (before ++ field ++ rest) = ofBytes (cString (field ++ rest)) := by
  rw [k.ofData_eq, List.append_assoc, List.drop_left' hstart]

/-- **A credential is its own field exactly when that has a `NUL`**, and then, and only
then, it does not depend on what follows: when all 32 bytes are used, the bytes of the
password become part of the user name, and those of the next request part of the
password. -/
theorem credential_from_field_iff (k : Credential) (field : List Byte)
    (hlength : field.length = 32) :
    (FromOwnField k field ↔ 0 ∈ field) ∧ (IndependentOfRest k field ↔ 0 ∈ field) := by
  have hown : 0 ∈ field → FromOwnField k field := by
    intro h type htype answers locals services session before rest reqLen haround
    rw [passed_eq htype _ _ _ _ _ haround.long, k.ofData_append haround.start,
      cString_append_of_mem h]
  have hfixed : FromOwnField k field → IndependentOfRest k field := by
    intro h type htype answers locals services session before rest rest' reqLen haround haround'
    rw [h type htype _ _ _ _ _ _ _ haround, h type htype _ _ _ _ _ _ _ haround']
  -- A field without `NUL` runs on into a byte that follows.
  have hends : IndependentOfRest k field → 0 ∈ field := by
    intro h
    by_contra hnot
    have haround : ∀ b, Around k field (List.replicate k.offset 0) (b :: List.replicate 31 0)
        AuthRequest.size := by
      intro b
      refine ⟨List.length_replicate, UInt32.le_refl _, ?_⟩
      rw [List.length_append, List.length_append, hlength]
      show 64 ≤ _ + 32 + 32
      omega
    have heq := h .login (Or.inl rfl) Answers.offline ⟨fun _ => 0, fun _ _ => 0⟩ Services.new
      ⟨"", 0⟩ _ _ _ _ (haround 0) (haround 1)
    rw [passed_eq (Or.inl rfl) _ _ _ _ _ (UInt32.le_refl _),
      passed_eq (Or.inl rfl) _ _ _ _ _ (UInt32.le_refl _),
      k.ofData_append List.length_replicate, k.ofData_append List.length_replicate,
      cString_append_of_notMem hnot, cString_append_of_notMem hnot] at heq
    have hsize := congrArg String.length (List.head_eq_of_cons_eq heq)
    rw [length_ofBytes, length_ofBytes, List.length_append, List.length_append] at hsize
    exact absurd (Nat.add_left_cancel hsize) (by decide)
  exact ⟨⟨fun h => hends (hfixed h), hown⟩, ⟨hends, fun h => hfixed (hown h)⟩⟩

/-- The field of a name that is shorter. -/
theorem credential_from_field_iff_sample :
    (List.replicate 5 97 ++ List.replicate 27 0 : List Byte).length = 32 ∧
      FromOwnField .username (List.replicate 5 97 ++ List.replicate 27 0) :=
  ⟨by decide, (credential_from_field_iff .username (List.replicate 5 97 ++ List.replicate 27 0)
    (by decide)).1.mpr (by decide)⟩

/-- A name of 32 letters, followed by a password: both become the name. -/
theorem password_in_username :
    ¬ FromOwnField .username (List.replicate 32 97) ∧
      ¬ IndependentOfRest .username (List.replicate 32 97) := by
  have haround : ∀ b, Around .username (List.replicate 32 97) []
      (b :: List.replicate 31 0) AuthRequest.size := by
    intro b
    exact ⟨rfl, UInt32.le_refl _, by simp [AuthRequest.size]⟩
  constructor
  · intro h
    have heq := h .login (Or.inl rfl) Answers.offline ⟨fun _ => 0, fun _ _ => 0⟩ Services.new
      ⟨"", 0⟩ _ _ _ (haround 98)
    exact absurd heq (by decide)
  · intro h
    have heq := h .login (Or.inl rfl) Answers.offline ⟨fun _ => 0, fun _ _ => 0⟩ Services.new
      ⟨"", 0⟩ _ _ _ _ (haround 98) (haround 0)
    exact absurd heq (by decide)

end ExchangeServer
