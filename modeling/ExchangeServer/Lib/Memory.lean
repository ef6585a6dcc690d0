import ExchangeServer.Lib.Bytes

/-!
# Structures in memory

The memory of a local variable, as the byte at each offset.  A variable that is not
initialised may hold anything, so results about what a program makes of it are for
all memories.

`read_fill` says that a packed structure whose fields are all written is those fields,
whatever it held before; `read_store_head` what is left of the rest when only the first
one is.
-/

namespace ExchangeServer.Lib

/-- The byte at every offset. -/
abbrev Memory := ℕ → Byte

namespace Memory

/-- `memset(.., 0, ..)`. -/
def zeroed : Memory := fun _ => 0

/-- Write `bs` from `offset` on. -/
def store (m : Memory) (offset : ℕ) (bs : List Byte) : Memory :=
  fun i => if offset ≤ i then (bs[i - offset]?).getD (m i) else m i

/-- The first `size` bytes. -/
def read (m : Memory) (size : ℕ) : List Byte :=
  (List.range size).map m

/-- Write the fields one after the other, from `offset` on. -/
def fill (m : Memory) (offset : ℕ) : List (List Byte) → Memory
  | [] => m
  | field :: fields => fill (m.store offset field) (offset + field.length) fields

theorem store_of_lt (m : Memory) {offset i : ℕ} (bs : List Byte) (h : i < offset) :
    m.store offset bs i = m i :=
  if_neg (Nat.not_le_of_lt h)

theorem store_of_ge (m : Memory) {offset i : ℕ} (bs : List Byte) (h : offset + bs.length ≤ i) :
    m.store offset bs i = m i := by
  unfold store
  rw [if_pos (by omega), List.getElem?_eq_none (by omega)]
  rfl

theorem store_add (m : Memory) (offset : ℕ) {bs : List Byte} {i : ℕ} (h : i < bs.length) :
    m.store offset bs (offset + i) = bs[i] := by
  unfold store
  rw [if_pos (Nat.le_add_right offset i), Nat.add_sub_cancel_left, List.getElem?_eq_getElem h]
  rfl

/-- Fields are written behind what is there. -/
theorem fill_of_lt (fields : List (List Byte)) (m : Memory) {offset i : ℕ} (h : i < offset) :
    m.fill offset fields i = m i := by
  induction fields generalizing m offset with
  | nil => rfl
  | cons field fields ih =>
      show (m.store offset field).fill (offset + field.length) fields i = m i
      rw [ih _ (by omega), store_of_lt m field h]

/-- The bytes from `offset` on. -/
def readFrom (m : Memory) (offset size : ℕ) : List Byte :=
  (List.range size).map fun i => m (offset + i)

theorem readFrom_add (m : Memory) (offset a b : ℕ) :
    m.readFrom offset (a + b) = m.readFrom offset a ++ m.readFrom (offset + a) b := by
  unfold readFrom
  rw [List.range_add, List.map_append, List.map_map]
  congr 2
  funext i
  show m (offset + (a + i)) = m (offset + a + i)
  rw [Nat.add_assoc]

theorem readFrom_congr {m m' : Memory} {offset size : ℕ}
    (h : ∀ i, offset ≤ i → i < offset + size → m i = m' i) :
    m.readFrom offset size = m'.readFrom offset size := by
  apply List.map_congr_left
  intro i hi
  have hlt := List.mem_range.mp hi
  exact h (offset + i) (Nat.le_add_right _ _) (by omega)

theorem readFrom_store (m : Memory) (offset : ℕ) (bs : List Byte) :
    (m.store offset bs).readFrom offset bs.length = bs := by
  unfold readFrom
  apply List.ext_getElem
  · rw [List.length_map, List.length_range]
  · intro i h₁ h₂
    rw [List.getElem_map, List.getElem_range]
    exact m.store_add offset h₂

theorem readFrom_fill (fields : List (List Byte)) (m : Memory) (offset : ℕ) :
    (m.fill offset fields).readFrom offset fields.flatten.length = fields.flatten := by
  induction fields generalizing m offset with
  | nil => rfl
  | cons field fields ih =>
      rw [List.flatten_cons, List.length_append, readFrom_add]
      have hhead : (m.fill offset (field :: fields)).readFrom offset field.length = field := by
        refine (readFrom_congr fun i _ hi => ?_).trans (m.readFrom_store offset field)
        exact fill_of_lt fields (m.store offset field) hi
      exact congrArg₂ (· ++ ·) hhead (ih (m.store offset field) (offset + field.length))

/-- **A structure whose fields are all written is its fields.** -/
theorem read_fill (m : Memory) (fields : List (List Byte)) {bs : List Byte} {size : ℕ}
    (hbs : fields.flatten = bs) (hsize : bs.length = size) :
    (m.fill 0 fields).read size = bs := by
  subst hbs hsize
  refine Eq.trans ?_ (m.readFrom_fill fields 0)
  apply List.map_congr_left
  intro i _
  rw [Nat.zero_add]

/-- When only the first field is written, the rest is as it was. -/
theorem read_store_head (m : Memory) (field : List Byte) (rest : ℕ) :
    (m.store 0 field).read (field.length + rest) = field ++ m.readFrom field.length rest := by
  have hread : (m.store 0 field).read (field.length + rest)
      = (m.store 0 field).readFrom 0 (field.length + rest) := by
    apply List.map_congr_left
    intro i _
    rw [Nat.zero_add]
  rw [hread, readFrom_add, readFrom_store, Nat.zero_add]
  congr 1
  apply readFrom_congr
  intro i hi _
  exact m.store_of_ge field (by omega)

end Memory

end ExchangeServer.Lib
