import Mathlib.Data.List.Basic
import Mathlib.Data.Nat.Notation

/-!
# Quoted literals

Text between two quotes, in which the quote is written twice and an escape character
gives the one after it another meaning.  `read` is the reader of such a literal: what it
denotes, and the text behind its closing quote.

A writer can escape what it writes (`escape`), and then the literal denotes exactly that,
whatever it is (`read_escape`).  A writer that does not is understood exactly when the
text is `Verbatim`: no quote, and an escape character only where it stands for itself
(`read_verbatim_iff`).
-/

namespace ExchangeServer.Lib

/-- A way to write literals: what the character behind an escape character denotes, and
how a character that is to be escaped is written.  A pair either stands for itself or
denotes one character at most. -/
structure Quoting (α : Type*) where
  quote : α
  esc : α
  decode : α → List α
  encode : α → Option α
  quote_ne_esc : quote ≠ esc
  decode_encode : ∀ c e, encode c = some e → decode e = [c]
  encode_quote : (encode quote).isSome
  encode_esc : (encode esc).isSome
  decode_short : ∀ e, decode e = [esc, e] ∨ (decode e).length ≤ 1

namespace Quoting

variable {α : Type*} (q : Quoting α)

/-- The text with everything escaped that has to be. -/
def escape (s : List α) : List α :=
  s.flatMap fun c =>
    match q.encode c with
    | some e => [q.esc, e]
    | none => [c]

variable [DecidableEq α]

/-- What a literal denotes, from behind its opening quote, and what follows its closing
one; `none` when it has none. -/
def read : List α → Option (List α × List α)
  | [] => none
  | [c] => if c = q.quote then some ([], []) else none
  | c :: d :: rest =>
      if c = q.esc then (read rest).map fun out => (q.decode d ++ out.1, out.2)
      else if c = q.quote then
        if d = q.quote then (read rest).map fun out => (q.quote :: out.1, out.2)
        else some ([], d :: rest)
      else (read (d :: rest)).map fun out => (c :: out.1, out.2)

/-- No quote, and escape characters only where they stand for themselves. -/
def Verbatim : List α → Prop
  | [] => True
  | [c] => c ≠ q.esc ∧ c ≠ q.quote
  | c :: d :: rest =>
      if c = q.esc then q.decode d = [q.esc, d] ∧ Verbatim rest
      else c ≠ q.quote ∧ Verbatim (d :: rest)

variable {q}

theorem read_esc (e : α) (rest : List α) :
    q.read (q.esc :: e :: rest) = (q.read rest).map fun out => (q.decode e ++ out.1, out.2) := by
  rw [read, if_pos rfl]

/-- The closing quote. -/
theorem read_quote {rest : List α} (h : rest.head? ≠ some q.quote) :
    q.read (q.quote :: rest) = some ([], rest) := by
  cases rest with
  | nil => rw [read, if_pos rfl]
  | cons d rest =>
      have hd : d ≠ q.quote := fun heq => h (congrArg some heq)
      rw [read, if_neg q.quote_ne_esc, if_pos rfl, if_neg hd]

/-- A character that is neither quote nor escape character stands for itself. -/
theorem read_plain {c : α} (hesc : c ≠ q.esc) (hquote : c ≠ q.quote) (rest : List α) :
    q.read (c :: rest) = (q.read rest).map fun out => (c :: out.1, out.2) := by
  cases rest with
  | nil => simp only [read, if_neg hquote, Option.map_none]
  | cons d rest => rw [read, if_neg hesc, if_neg hquote]

/-! ## Escaped text -/

section Escape

omit [DecidableEq α]

theorem escape_cons (c : α) (s : List α) :
    q.escape (c :: s) = (match q.encode c with
      | some e => [q.esc, e]
      | none => [c]) ++ q.escape s :=
  rfl

theorem escape_append (s s' : List α) : q.escape (s ++ s') = q.escape s ++ q.escape s' :=
  List.flatMap_append

/-- What is not escaped is not special. -/
theorem plain_of_encode {c : α} (h : q.encode c = none) : c ≠ q.esc ∧ c ≠ q.quote := by
  constructor
  · rintro rfl
    have hsome := q.encode_esc
    rw [h] at hsome
    cases hsome
  · rintro rfl
    have hsome := q.encode_quote
    rw [h] at hsome
    cases hsome

/-- Every escaped character takes one more. -/
theorem length_escape (s : List α) :
    (q.escape s).length = s.length + s.countP fun c => (q.encode c).isSome := by
  induction s with
  | nil => rfl
  | cons c s ih =>
      rw [escape_cons, List.length_append, ih, List.countP_cons, List.length_cons]
      cases hc : q.encode c with
      | some e =>
          simp only [List.length_cons, List.length_nil, Option.isSome_some, if_true]
          omega
      | none =>
          simp only [List.length_cons, List.length_nil, Option.isSome_none, Bool.false_eq_true,
            if_false]
          omega

/-- What every escaped text is free of. -/
theorem notMem_escape {x : α} (hx : (q.encode x).isSome) (hesc : x ≠ q.esc)
    (hcode : ∀ c, q.encode c ≠ some x) (s : List α) : x ∉ q.escape s := by
  intro hmem
  obtain ⟨c, -, hmem⟩ := List.mem_flatMap.mp hmem
  cases hc : q.encode c with
  | some e =>
      rw [hc] at hmem
      rcases List.mem_cons.mp hmem with heq | hmem
      · exact hesc heq
      · exact hcode c (List.mem_singleton.mp hmem ▸ hc)
  | none =>
      rw [hc] at hmem
      rw [List.mem_singleton.mp hmem, hc] at hx
      cases hx

end Escape

/-- **Escaped text is read as what it was made of**, and what follows its closing quote
is not touched. -/
theorem read_escape (s : List α) {rest : List α} (h : rest.head? ≠ some q.quote) :
    q.read (q.escape s ++ q.quote :: rest) = some (s, rest) := by
  induction s with
  | nil => exact read_quote h
  | cons c s ih =>
      rw [escape_cons]
      cases hc : q.encode c with
      | some e =>
          show q.read (q.esc :: e :: (q.escape s ++ q.quote :: rest)) = _
          rw [read_esc, ih, q.decode_encode c e hc]
          rfl
      | none =>
          obtain ⟨hesc, hquote⟩ := plain_of_encode hc
          show q.read (c :: (q.escape s ++ q.quote :: rest)) = _
          rw [read_plain hesc hquote, ih]
          rfl

/-! ## Text that is not escaped -/

theorem read_of_verbatim {s : List α} (h : q.Verbatim s) :
    q.read (s ++ [q.quote]) = some (s, []) := by
  induction s using Verbatim.induct q with
  | case1 => exact read_quote (by simp)
  | case2 c =>
      show q.read [c, q.quote] = _
      rw [read_plain h.1 h.2, read_quote (by simp)]
      rfl
  | case3 d rest ih =>
      rw [Verbatim, if_pos rfl] at h
      show q.read (q.esc :: d :: (rest ++ [q.quote])) = _
      rw [read_esc, ih h.2, h.1]
      rfl
  | case4 c d rest hesc ih =>
      rw [Verbatim, if_neg hesc] at h
      show q.read (c :: (d :: rest ++ [q.quote])) = _
      rw [read_plain hesc h.1, ih h.2]
      rfl

/-- A literal does not denote more than is written between its quotes. -/
theorem length_of_read {s v rest : List α} (h : q.read s = some (v, rest)) :
    v.length + rest.length < s.length := by
  fun_induction read q s generalizing v with
  | case1 => cases h
  | case2 =>
      obtain ⟨rfl, rfl⟩ := Prod.mk.inj (Option.some.inj h)
      exact Nat.zero_lt_one
  | case3 c hquote => cases h
  | case4 d later ih =>
      obtain ⟨out, hread, heq⟩ := Option.map_eq_some_iff.mp h
      obtain ⟨rfl, rfl⟩ := Prod.mk.inj heq
      have hlater := ih hread
      have hpair : (q.decode d).length ≤ 2 := by
        rcases q.decode_short d with hpair | hshort
        · rw [hpair]
          exact Nat.le_refl _
        · omega
      simp only [List.length_append, List.length_cons]
      omega
  | case5 later hne ih =>
      obtain ⟨out, hread, heq⟩ := Option.map_eq_some_iff.mp h
      obtain ⟨rfl, rfl⟩ := Prod.mk.inj heq
      have hlater := ih hread
      simp only [List.length_cons]
      omega
  | case6 d later hne hd =>
      obtain ⟨rfl, rfl⟩ := Prod.mk.inj (Option.some.inj h)
      simp
  | case7 c d later hesc hquote ih =>
      obtain ⟨out, hread, heq⟩ := Option.map_eq_some_iff.mp h
      obtain ⟨rfl, rfl⟩ := Prod.mk.inj heq
      have hlater := ih hread
      simp only [List.length_cons] at hlater ⊢
      omega

/-- It denotes as much only if every character stands for itself. -/
theorem verbatim_of_read {s v : List α} (h : q.read (s ++ [q.quote]) = some (v, []))
    (hlength : v.length = s.length) : q.Verbatim s := by
  induction s using Verbatim.induct q generalizing v with
  | case1 => trivial
  | case2 c =>
      -- A quote or an escape character takes the closing quote with it.
      have hesc : c ≠ q.esc := by
        rintro rfl
        rw [List.singleton_append, read_esc, read] at h
        cases h
      have hquote : c ≠ q.quote := by
        rintro rfl
        rw [List.singleton_append, read, if_neg q.quote_ne_esc, if_pos rfl, if_pos rfl, read] at h
        cases h
      exact ⟨hesc, hquote⟩
  | case3 d rest ih =>
      rw [List.cons_append, List.cons_append, read_esc] at h
      obtain ⟨⟨v', after⟩, hread, heq⟩ := Option.map_eq_some_iff.mp h
      obtain ⟨rfl, rfl⟩ := Prod.mk.inj heq
      have hle := length_of_read hread
      simp only [List.length_append, List.length_cons, List.length_nil] at hlength hle
      rw [Verbatim, if_pos rfl]
      rcases q.decode_short d with hpair | hshort
      · rw [hpair, List.length_cons, List.length_cons, List.length_nil] at hlength
        exact ⟨hpair, ih hread (by omega)⟩
      · omega
  | case4 c d rest hesc ih =>
      rw [Verbatim, if_neg hesc]
      have hquote : c ≠ q.quote := by
        rintro rfl
        rw [List.cons_append, List.cons_append, read, if_neg q.quote_ne_esc, if_pos rfl] at h
        split_ifs at h with hd
        -- A quote written twice denotes one.
        · obtain ⟨⟨v', after⟩, hread, heq⟩ := Option.map_eq_some_iff.mp h
          obtain ⟨rfl, rfl⟩ := Prod.mk.inj heq
          have hle := length_of_read hread
          simp only [List.length_append, List.length_cons, List.length_nil] at hlength hle
          omega
        · cases (Prod.mk.inj (Option.some.inj h)).2
      rw [List.cons_append, read_plain hesc hquote] at h
      obtain ⟨⟨v', after⟩, hread, heq⟩ := Option.map_eq_some_iff.mp h
      obtain ⟨rfl, rfl⟩ := Prod.mk.inj heq
      exact ⟨hquote, ih hread (Nat.succ.inj hlength)⟩

/-- **Text that is not escaped denotes itself** exactly when it is verbatim. -/
theorem read_verbatim_iff (s : List α) :
    q.read (s ++ [q.quote]) = some (s, []) ↔ q.Verbatim s :=
  ⟨fun h => verbatim_of_read h rfl, read_of_verbatim⟩

end Quoting

end ExchangeServer.Lib
