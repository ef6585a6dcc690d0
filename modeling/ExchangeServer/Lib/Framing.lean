import Mathlib.Data.List.Basic

/-!
# Frames in a stream

A receiver that gets a stream in pieces of any size has to find the frames in it.
A `FrameFormat` says what frame stands at the head of what has arrived so far, if
all of it has; `parse` takes frames off until the next one is incomplete.

`parse_append` is the point: what is parsed of a stream does not depend on how it
was cut, as long as the incomplete rest is kept.  `parse_of_isPrefix` says what is
parsed of a stream that was encoded frame by frame when only a part of it has
arrived.

A sender that writes its messages one after the other may write a part of one and give
it up.  `written_isPrefix` says when what it has written is still the beginning of the
messages.
-/

namespace ExchangeServer.Lib

variable {β γ : Type*}

/-- How frames are found.  `next` is the frame at the head and its size, when all of it
is there; more bytes do not change that. -/
structure FrameFormat (β γ : Type*) where
  next : List β → Option (γ × ℕ)
  size_pos : ∀ {bs f n}, next bs = some (f, n) → 0 < n
  size_le : ∀ {bs f n}, next bs = some (f, n) → n ≤ bs.length
  stable : ∀ {bs f n}, next bs = some (f, n) → ∀ more, next (bs ++ more) = some (f, n)

namespace FrameFormat

variable (F : FrameFormat β γ)

/-- The complete frames of a stream, and the incomplete rest. -/
def parse (bs : List β) : List γ × List β :=
  match h : F.next bs with
  | none => ([], bs)
  | some (f, n) =>
      let later := parse (bs.drop n)
      (f :: later.1, later.2)
termination_by bs.length
decreasing_by
  have hpos := F.size_pos h
  have hle := F.size_le h
  rw [List.length_drop]
  omega

theorem parse_of_none {bs : List β} (h : F.next bs = none) : F.parse bs = ([], bs) := by
  rw [parse]
  split
  case h_1 => rfl
  case h_2 heq => cases h.symm.trans heq

theorem parse_of_some {bs : List β} {f : γ} {n : ℕ} (h : F.next bs = some (f, n)) :
    F.parse bs = (f :: (F.parse (bs.drop n)).1, (F.parse (bs.drop n)).2) := by
  rw [parse]
  split
  case h_1 heq => cases h.symm.trans heq
  case h_2 f' n' heq =>
      obtain ⟨rfl, rfl⟩ := Prod.mk.inj (Option.some.inj (h.symm.trans heq))
      rfl

theorem next_nil : F.next [] = none := by
  cases h : F.next [] with
  | none => rfl
  | some out => exact absurd (F.size_le h) (Nat.not_le.mpr (F.size_pos h))

/-- A stream without a complete frame. -/
theorem parse_fst_eq_nil_iff {bs : List β} : (F.parse bs).1 = [] ↔ F.next bs = none := by
  cases h : F.next bs with
  | none => rw [F.parse_of_none h]; simp
  | some out => rw [F.parse_of_some h]; simp

/-- Induction along the frames of a stream. -/
theorem parse_induction {P : List β → Prop} (hnone : ∀ bs, F.next bs = none → P bs)
    (hsome : ∀ bs f n, F.next bs = some (f, n) → P (bs.drop n) → P bs) (bs : List β) :
    P bs := by
  induction hlen : bs.length using Nat.strongRecOn generalizing bs with
  | ind len ih =>
      cases h : F.next bs with
      | none => exact hnone bs h
      | some out =>
          obtain ⟨f, n⟩ := out
          have hpos := F.size_pos h
          have hle := F.size_le h
          refine hsome bs f n h (ih (bs.drop n).length ?_ _ rfl)
          rw [List.length_drop]
          omega

/-- What is kept is not a frame yet. -/
theorem next_parse (bs : List β) : F.next (F.parse bs).2 = none := by
  induction bs using F.parse_induction with
  | hnone bs h => rwa [F.parse_of_none h]
  | hsome bs f n h ih => rwa [F.parse_of_some h]

/-- **Parsing does not depend on how the stream was cut.** -/
theorem parse_append (a b : List β) :
    F.parse (a ++ b) = ((F.parse a).1 ++ (F.parse ((F.parse a).2 ++ b)).1,
      (F.parse ((F.parse a).2 ++ b)).2) := by
  induction a using F.parse_induction with
  | hnone a h =>
      rw [F.parse_of_none h]
      rfl
  | hsome a f n h ih =>
      rw [F.parse_of_some (F.stable h b), F.parse_of_some h,
        List.drop_append_of_le_length (F.size_le h), ih]
      rfl

/-- `encode` writes frames as `F` reads them. -/
def Encodes (encode : γ → List β) (f : γ) : Prop :=
  F.next (encode f) = some (f, (encode f).length)

variable {F} {encode : γ → List β}

/-- A part of a frame is not a frame. -/
theorem Encodes.next_of_isPrefix {f : γ} (h : F.Encodes encode f) {r : List β}
    (hpre : r <+: encode f) (hlt : r.length < (encode f).length) : F.next r = none := by
  cases hr : F.next r with
  | none => rfl
  | some out =>
      obtain ⟨more, hmore⟩ := hpre
      have hstable := F.stable hr more
      rw [hmore, h] at hstable
      obtain ⟨-, hsize⟩ := Prod.mk.inj (Option.some.inj hstable)
      have hle := F.size_le hr
      omega

theorem Encodes.parse_append {f : γ} (h : F.Encodes encode f) (rest : List β) :
    F.parse (encode f ++ rest) = (f :: (F.parse rest).1, (F.parse rest).2) := by
  rw [F.parse_of_some (F.stable h rest), List.drop_left]

/-- All of an encoded stream is parsed. -/
theorem parse_flatMap {fs : List γ} (hfs : ∀ f ∈ fs, F.Encodes encode f) :
    F.parse (fs.flatMap encode) = (fs, []) := by
  induction fs with
  | nil => exact F.parse_of_none F.next_nil
  | cons f fs ih =>
      rw [List.flatMap_cons, (hfs f List.mem_cons_self).parse_append,
        ih fun g hg => hfs g (List.mem_cons_of_mem f hg)]

/-- **A part of an encoded stream** is parsed into the frames that have arrived
completely, and what is kept is the beginning of the next one. -/
theorem parse_of_isPrefix {fs : List γ} (hfs : ∀ f ∈ fs, F.Encodes encode f) {bs : List β}
    (hbs : bs <+: fs.flatMap encode) :
    ∃ k r, F.parse bs = (fs.take k, r) ∧ bs = (fs.take k).flatMap encode ++ r ∧
      ∀ f, fs[k]? = some f → r <+: encode f ∧ r.length < (encode f).length := by
  induction fs generalizing bs with
  | nil =>
      rw [List.flatMap_nil, List.prefix_nil] at hbs
      subst hbs
      exact ⟨0, [], F.parse_of_none F.next_nil, rfl, by simp⟩
  | cons f fs ih =>
      have hf := hfs f List.mem_cons_self
      rw [List.flatMap_cons] at hbs
      by_cases hlen : bs.length < (encode f).length
      · -- Not even the first frame is complete.
        have hpre : bs <+: encode f :=
          List.prefix_of_prefix_length_le hbs (List.prefix_append _ _) (Nat.le_of_lt hlen)
        refine ⟨0, bs, F.parse_of_none (hf.next_of_isPrefix hpre hlen), rfl, fun g hg => ?_⟩
        rw [← Option.some.inj hg]
        exact ⟨hpre, hlen⟩
      · have hpre : encode f <+: bs :=
          List.prefix_of_prefix_length_le (List.prefix_append _ _) hbs (Nat.le_of_not_lt hlen)
        obtain ⟨rest, rfl⟩ := hpre
        obtain ⟨k, r, hparse, hrest, hnext⟩ := ih
          (fun g hg => hfs g (List.mem_cons_of_mem _ hg)) ((List.prefix_append_right_inj _).mp hbs)
        refine ⟨k + 1, r, ?_, ?_, hnext⟩
        · rw [hf.parse_append, hparse]
          rfl
        · rw [List.take_succ_cons, List.flatMap_cons, List.append_assoc, ← hrest]

end FrameFormat

/-! ## Messages that are written in parts -/

section Written

variable {α : Type*}

/-- What is on the stream when each message has been written up to some length. -/
def written (log : List (List α × ℕ)) : List α :=
  log.flatMap fun e => e.1.take e.2

/-- Nothing has been written of a message behind one that is not complete. -/
def Whole (log : List (List α × ℕ)) : Prop :=
  log.Pairwise fun e e' => 0 < e'.2 → e.2 = e.1.length

/-- Of messages that have not been begun nothing is on the stream. -/
theorem written_of_zero {log : List (List α × ℕ)} (h : ∀ e ∈ log, e.2 = 0) :
    written log = [] := by
  refine List.flatMap_eq_nil_iff.mpr fun e he => ?_
  rw [h e he, List.take_zero]

/-- Messages that are complete are on the stream as they are. -/
theorem written_of_complete {log : List (List α × ℕ)} (h : ∀ e ∈ log, e.2 = e.1.length) :
    written log = (log.map Prod.fst).flatten := by
  rw [written, ← List.flatMap_def]
  exact List.flatMap_congr fun e he => by rw [h e he, List.take_length]

/-- **The stream is the beginning of the messages.** -/
theorem written_isPrefix {log : List (List α × ℕ)} (h : Whole log) :
    written log <+: (log.map Prod.fst).flatten := by
  induction log with
  | nil => exact List.prefix_rfl
  | cons e log ih =>
      obtain ⟨hhead, htail⟩ := List.pairwise_cons.mp h
      show e.1.take e.2 ++ written log <+: e.1 ++ (log.map Prod.fst).flatten
      by_cases hzero : ∀ e' ∈ log, e'.2 = 0
      · rw [written_of_zero hzero, List.append_nil]
        exact (List.take_prefix ..).trans (List.prefix_append ..)
      · push Not at hzero
        obtain ⟨e', he', hpos⟩ := hzero
        rw [hhead e' he' (Nat.pos_of_ne_zero hpos), List.take_length]
        exact (List.prefix_append_right_inj _).mpr (ih htail)

/-- One more message. -/
theorem whole_snoc {log : List (List α × ℕ)} {message : List α} {n : ℕ} :
    Whole (log ++ [(message, n)]) ↔ Whole log ∧ (0 < n → ∀ e ∈ log, e.2 = e.1.length) := by
  unfold Whole
  rw [List.pairwise_append]
  simp only [List.pairwise_singleton, List.mem_singleton, forall_eq, true_and]
  exact and_congr_right fun _ => ⟨fun h hn e he => h e he hn, fun h e he hn => h hn e he⟩

end Written

end ExchangeServer.Lib
