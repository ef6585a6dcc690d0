import ExchangeServer.Handler
import ExchangeServer.Lib.Runs

/-!
# Order ids

`OrderIdGenerator::generate`, called by many threads at once.  A call does two
things, it reads the millisecond clock and then draws from the counter, and other
calls may do theirs in between, so `Generator` keeps the readings of the calls that
have not drawn yet.

An id holds the low 42 bits of the reading and the low 12 bits of the draw.  There
is no wait for the next millisecond when the 12 bits are used up, so two calls with
one reading get one id as soon as their draws are a multiple of 4096 apart:
`orderIds_distinct_iff` says that nothing else goes wrong.

The node id sits between the two.  `draws` is a stretch of consecutive increments of
the counter with any readings at all: the clock of a call may have been set back, may
stand before `EPOCH`, and the counter may wrap on the way.
-/

namespace ExchangeServer

open Lib

/-! ## The bits of an id -/

namespace OrderIdGenerator

/-- The fields of an id as one number. -/
theorem toNat_generate (timestamp : UInt64) (seq : UInt32) :
    (generate timestamp seq).toNat
      = (timestamp - epoch).toNat % 2 ^ 42 * 2 ^ 22 + 4096 + seq.toNat % 4096 := by
  have hseq : (seq &&& 4095).toUInt64.toNat = seq.toNat % 2 ^ 12 := by
    rw [UInt32.toNat_toUInt64, UInt32.toNat_and]
    exact Nat.and_two_pow_sub_one_eq_mod seq.toNat 12
  have hnode : (nodeId <<< 12).toNat = 1 <<< 12 := rfl
  have htime : ((timestamp - epoch) <<< 22).toNat
      = ((timestamp - epoch).toNat % 2 ^ 42) <<< 22 := by
    rw [UInt64.toNat_shiftLeft, Nat.shiftLeft_eq, Nat.shiftLeft_eq]
    show (timestamp - epoch).toNat * 2 ^ 22 % 2 ^ 64 = _
    rw [show (2 : ℕ) ^ 64 = 2 ^ 42 * 2 ^ 22 from rfl, Nat.mul_mod_mul_right]
  unfold generate
  rw [UInt64.toNat_or, UInt64.toNat_or, hseq, hnode, htime, Nat.or_assoc]
  have hlow : 1 <<< 12 ||| seq.toNat % 2 ^ 12 = 4096 + seq.toNat % 4096 :=
    (Nat.shiftLeft_add_eq_or_of_lt (Nat.mod_lt _ (by decide)) 1).symm
  have hbound : 4096 + seq.toNat % 4096 < 2 ^ 22 := by omega
  rw [hlow, ← Nat.shiftLeft_add_eq_or_of_lt hbound, Nat.shiftLeft_eq, Nat.add_assoc]

/-- **When two ids are the same.** -/
theorem generate_eq_iff (timestamp timestamp' : UInt64) (seq seq' : UInt32) :
    generate timestamp seq = generate timestamp' seq' ↔
      timestamp.toNat ≡ timestamp'.toNat [MOD 2 ^ 42] ∧ seq.toNat ≡ seq'.toNat [MOD 4096] := by
  have hsub : ∀ t : UInt64,
      (t - epoch).toNat % 2 ^ 42 = (t.toNat + (2 ^ 64 - epoch.toNat)) % 2 ^ 42 := by
    intro t
    rw [UInt64.toNat_sub]
    omega
  rw [← UInt64.toNat_inj, toNat_generate, toNat_generate, hsub, hsub]
  unfold Nat.ModEq
  omega

/-- The ten bits above the sequence number hold the node id. -/
theorem generate_nodeId (timestamp : UInt64) (seq : UInt32) :
    (generate timestamp seq >>> 12) &&& 1023 = nodeId := by
  have hbits : (generate timestamp seq >>> 12 &&& 1023).toNat
      = (generate timestamp seq).toNat / 2 ^ 12 % 2 ^ 10 := by
    rw [UInt64.toNat_and, UInt64.toNat_shiftRight, Nat.shiftRight_eq_div_pow]
    exact Nat.and_two_pow_sub_one_eq_mod _ 10
  have hnode : nodeId.toNat = 1 := rfl
  rw [← UInt64.toNat_inj, hbits, toNat_generate, hnode]
  omega

/-- The ids of consecutive increments of the counter from `seq` on, with the clock
readings of the calls that make them. -/
def draws (seq : UInt32) : List UInt64 → List UInt64
  | [] => []
  | timestamp :: timestamps => generate timestamp seq :: draws (seq + 1) timestamps

theorem length_draws (seq : UInt32) (timestamps : List UInt64) :
    (draws seq timestamps).length = timestamps.length := by
  induction timestamps generalizing seq with
  | nil => rfl
  | cons timestamp timestamps ih => exact congrArg (· + 1) (ih (seq + 1))

theorem draws_getElem? (seq : UInt32) (timestamps : List UInt64) (i : ℕ) :
    (draws seq timestamps)[i]?
      = timestamps[i]?.map fun timestamp => generate timestamp (seq + UInt32.ofNat i) := by
  induction timestamps generalizing seq i with
  | nil => rfl
  | cons timestamp timestamps ih =>
      cases i with
      | zero =>
          show some (generate timestamp seq) = some (generate timestamp (seq + 0))
          rw [UInt32.add_zero]
      | succ i =>
          have hseq : seq + 1 + UInt32.ofNat i = seq + UInt32.ofNat (i + 1) := by
            rw [UInt32.ofNat_add, UInt32.add_assoc, UInt32.add_comm 1]
            rfl
          show (draws (seq + 1) timestamps)[i]? = timestamps[i]?.map _
          rw [ih, hseq]

/-- **Two increments that are not a multiple of 4096 apart** give different ids, with
any readings: 4096 divides the width of the counter, so a wrap in between does not
matter. -/
theorem generate_ne_of_distance (timestamp timestamp' : UInt64) (seq : UInt32) {i j : ℕ}
    (hij : i < j) (hdistance : j - i < 4096) :
    generate timestamp (seq + UInt32.ofNat i) ≠ generate timestamp' (seq + UInt32.ofNat j) := by
  have hmod : ∀ k : ℕ, (seq + UInt32.ofNat k).toNat % 4096 = (seq.toNat + k) % 4096 := by
    intro k
    rw [UInt32.toNat_add, UInt32.toNat_ofNat']
    omega
  intro heq
  have hseq := ((generate_eq_iff ..).mp heq).2
  unfold Nat.ModEq at hseq
  rw [hmod, hmod] at hseq
  omega

theorem draws_nodup {timestamps : List UInt64} (h : timestamps.length ≤ 4096) (seq : UInt32) :
    (draws seq timestamps).Nodup := by
  rw [List.nodup_iff_getElem?_ne_getElem?]
  intro i j hij hj heq
  rw [length_draws] at hj
  have hi : i < timestamps.length := by omega
  rw [draws_getElem?, draws_getElem?, List.getElem?_eq_getElem hi,
    List.getElem?_eq_getElem hj] at heq
  exact generate_ne_of_distance _ _ seq hij (by omega) (Option.some.inj heq)

end OrderIdGenerator

/-- **When order ids collide.**  Two calls return the same id if and only if their
clock readings agree modulo 2^42 and their draws modulo 4096; the node id is in every
id; and up to 4096 consecutive increments of the counter give distinct ids, from any
value of the counter and for any readings of the clock. -/
theorem orderIds_collide_iff :
    (∀ (timestamp timestamp' : UInt64) (seq seq' : UInt32),
      OrderIdGenerator.generate timestamp seq = OrderIdGenerator.generate timestamp' seq' ↔
        timestamp.toNat ≡ timestamp'.toNat [MOD 2 ^ 42] ∧
          seq.toNat ≡ seq'.toNat [MOD 4096]) ∧
    (∀ (timestamp : UInt64) (seq : UInt32),
      (OrderIdGenerator.generate timestamp seq >>> 12) &&& 1023 = OrderIdGenerator.nodeId) ∧
    ∀ (seq : UInt32) (timestamps : List UInt64), timestamps.length ≤ 4096 →
      (OrderIdGenerator.draws seq timestamps).Nodup :=
  ⟨OrderIdGenerator.generate_eq_iff, OrderIdGenerator.generate_nodeId,
    fun seq _ h => OrderIdGenerator.draws_nodup h seq⟩

/-- Three increments across the wrap of the counter, with a clock that is set back
before `EPOCH`. -/
theorem orderIds_collide_iff_wrap :
    (OrderIdGenerator.draws 0xFFFFFFFF [OrderIdGenerator.epoch, 0, 0]).Nodup :=
  orderIds_collide_iff.2.2 0xFFFFFFFF [OrderIdGenerator.epoch, 0, 0] (by decide)

/-! ## Calls in any interleaving -/

/-- The generator, with the calls that are under way.  `drawn` and `returned` are not
part of the program: they record the clock readings of the calls in the order of their
draws, and the ids they returned. -/
structure Generator where
  /-- The millisecond clock. -/
  clock : UInt64
  sequence : UInt32
  /-- Calls that have read the clock and not drawn yet, with their readings. -/
  reading : List (ThreadId × UInt64)
  drawn : List UInt64
  returned : List UInt64

namespace Generator

/-- What can happen. -/
inductive Action where
  | tick (now : UInt64)
  | readClock (thread : ThreadId)
  /-- `sequence_.fetch_add`, and the rest of the call. -/
  | fetchAdd (thread : ThreadId)

/-- A generator that was never called. -/
def start (clock : UInt64) : Generator :=
  ⟨clock, 0, [], [], []⟩

/-- **One action.**  The clock does not go back, and a thread makes one call at a
time. -/
def step (g : Generator) : Action → Option Generator
  | .tick now => if g.clock ≤ now then some { g with clock := now } else none
  | .readClock thread =>
      if g.reading.lookup thread = none then
        some { g with reading := (thread, g.clock) :: g.reading }
      else none
  | .fetchAdd thread =>
      (g.reading.lookup thread).map fun timestamp =>
        { g with
          sequence := g.sequence + 1
          reading := g.reading.filter fun call => call.1 ≠ thread
          drawn := g.drawn ++ [timestamp]
          returned := g.returned ++ [OrderIdGenerator.generate timestamp g.sequence] }

/-- The `i`-th draw gets `i`, modulo the width of the counter. -/
structure Counted (g : Generator) : Prop where
  sequence : g.sequence.toNat = g.drawn.length % 2 ^ 32
  returned : g.returned
    = g.drawn.mapIdx fun i timestamp => OrderIdGenerator.generate timestamp (UInt32.ofNat i)

theorem Counted.step {g g' : Generator} {a : Action} (h : g.Counted)
    (hstep : g.step a = some g') : g'.Counted := by
  cases a with
  | tick now =>
      simp only [Generator.step] at hstep
      split_ifs at hstep
      obtain rfl := Option.some.inj hstep
      exact ⟨h.sequence, h.returned⟩
  | readClock thread =>
      simp only [Generator.step] at hstep
      split_ifs at hstep
      obtain rfl := Option.some.inj hstep
      exact ⟨h.sequence, h.returned⟩
  | fetchAdd thread =>
      obtain ⟨timestamp, -, rfl⟩ := Option.map_eq_some_iff.mp hstep
      have hseq : g.sequence = UInt32.ofNat g.drawn.length := by
        rw [← UInt32.toNat_inj, h.sequence, UInt32.toNat_ofNat']
      refine ⟨?_, ?_⟩
      · show (g.sequence + 1).toNat = (g.drawn ++ [timestamp]).length % 2 ^ 32
        rw [UInt32.toNat_add, h.sequence, List.length_append]
        show (g.drawn.length % 2 ^ 32 + 1) % 2 ^ 32 = _
        rw [List.length_singleton]
        omega
      · show g.returned ++ _ = List.mapIdx _ (g.drawn ++ [timestamp])
        rw [List.mapIdx_concat, h.returned, hseq]

/-- In every interleaving the returned ids are those of consecutive increments from
zero on. -/
theorem Counted.returned_eq_draws {g : Generator} (h : g.Counted) :
    g.returned = OrderIdGenerator.draws 0 g.drawn := by
  rw [h.returned]
  apply List.ext_getElem?
  intro i
  rw [List.getElem?_mapIdx, OrderIdGenerator.draws_getElem?, UInt32.zero_add]

theorem counted_of_runs {clock : UInt64} {actions : List Action} {g : Generator}
    (hrun : runs step (start clock) actions = some g) : g.Counted :=
  runs_induction (P := Counted) (fun _ _ _ h hstep => h.step hstep) actions ⟨rfl, rfl⟩ hrun

/-- **When the returned ids are distinct.** -/
theorem Counted.nodup_iff {g : Generator} (h : g.Counted) :
    g.returned.Nodup ↔
      ∀ (i j : ℕ) (timestamp timestamp' : UInt64), i < j → g.drawn[i]? = some timestamp →
        g.drawn[j]? = some timestamp' → timestamp.toNat ≡ timestamp'.toNat [MOD 2 ^ 42] →
        (j - i) % 4096 ≠ 0 := by
  have hlength : g.returned.length = g.drawn.length := by
    rw [h.returned_eq_draws, OrderIdGenerator.length_draws]
  have hget : ∀ i, g.returned[i]? = g.drawn[i]?.map fun timestamp =>
      OrderIdGenerator.generate timestamp (UInt32.ofNat i) := by
    intro i
    rw [h.returned_eq_draws, OrderIdGenerator.draws_getElem?, UInt32.zero_add]
  have hmod : ∀ i : ℕ, (UInt32.ofNat i).toNat % 4096 = i % 4096 := by
    intro i
    rw [UInt32.toNat_ofNat']
    omega
  rw [List.nodup_iff_getElem?_ne_getElem?]
  constructor
  · intro hne i j timestamp timestamp' hij hi hj htime hmultiple
    refine hne i j hij (hlength ▸ (List.getElem?_eq_some_iff.mp hj).1) ?_
    rw [hget, hget, hi, hj]
    refine congrArg some ((OrderIdGenerator.generate_eq_iff ..).mpr ⟨htime, ?_⟩)
    unfold Nat.ModEq
    rw [hmod, hmod]
    omega
  · intro hapart i j hij hj heq
    rw [hlength] at hj
    have hi : i < g.drawn.length := by omega
    rw [hget, hget, List.getElem?_eq_getElem hi, List.getElem?_eq_getElem hj] at heq
    obtain ⟨htime, hseq⟩ := (OrderIdGenerator.generate_eq_iff ..).mp (Option.some.inj heq)
    refine hapart i j _ _ hij (List.getElem?_eq_getElem hi) (List.getElem?_eq_getElem hj)
      htime ?_
    unfold Nat.ModEq at hseq
    rw [hmod, hmod] at hseq
    omega

end Generator

/-- **Order ids are unique exactly when** no two calls with the same clock reading
(modulo 2^42 ms, beyond which an id forgets it) draw a multiple of 4096 apart,
whatever the threads did and in whatever order. -/
theorem orderIds_distinct_iff (clock : UInt64) (actions : List Generator.Action) (g : Generator)
    (hrun : runs Generator.step (Generator.start clock) actions = some g) :
    g.returned.Nodup ↔
      ∀ (i j : ℕ) (timestamp timestamp' : UInt64), i < j → g.drawn[i]? = some timestamp →
        g.drawn[j]? = some timestamp' → timestamp.toNat ≡ timestamp'.toNat [MOD 2 ^ 42] →
        (j - i) % 4096 ≠ 0 :=
  (Generator.counted_of_runs hrun).nodup_iff

/-- Two threads whose calls overlap. -/
theorem orderIds_distinct_iff_sample :
    ∃ g, runs Generator.step (Generator.start OrderIdGenerator.epoch)
        [.readClock 0, .readClock 1, .fetchAdd 1, .fetchAdd 0] = some g ∧ g.returned.Nodup := by
  refine ⟨_, rfl, (orderIds_distinct_iff OrderIdGenerator.epoch
    [.readClock 0, .readClock 1, .fetchAdd 1, .fetchAdd 0] _ rfl).mpr ?_⟩
  intro i j timestamp timestamp' hij hi hj _
  have hj' : j < 2 := (List.getElem?_eq_some_iff.mp hj).1
  omega

namespace Generator

/-- One thread that makes `n` calls. -/
def calls (n : ℕ) : List Action :=
  (List.replicate n [.readClock 0, .fetchAdd 0]).flatten

/-- Calls within one millisecond all read it. -/
theorem runs_calls (n : ℕ) (g : Generator) (hidle : g.reading = []) :
    ∃ g', runs step g (calls n) = some g' ∧
      g'.drawn = g.drawn ++ List.replicate n g.clock := by
  induction n generalizing g with
  | zero => exact ⟨g, rfl, (List.append_nil _).symm⟩
  | succ n ih =>
      obtain ⟨g', hrun, hdrawn⟩ := ih
        { g with
          sequence := g.sequence + 1
          drawn := g.drawn ++ [g.clock]
          returned := g.returned ++ [OrderIdGenerator.generate g.clock g.sequence] } hidle
      refine ⟨g', ?_, ?_⟩
      · simpa [calls, List.replicate_succ, runs, step, hidle] using hrun
      · rw [hdrawn, List.append_assoc, List.replicate_succ]
        rfl

end Generator

/-- 4097 calls in the first millisecond: the first and the last get the same id. -/
theorem orderIds_not_distinct :
    ∃ g, runs Generator.step (Generator.start OrderIdGenerator.epoch) (Generator.calls 4097)
      = some g ∧ ¬ g.returned.Nodup := by
  obtain ⟨g, hrun, hdrawn⟩ :=
    Generator.runs_calls 4097 (Generator.start OrderIdGenerator.epoch) rfl
  refine ⟨g, hrun, fun hnodup => ?_⟩
  have hget : ∀ i, i < 4097 → g.drawn[i]? = some OrderIdGenerator.epoch := by
    intro i hi
    rw [hdrawn]
    exact List.getElem?_replicate_of_lt hi
  exact (Generator.counted_of_runs hrun).nodup_iff.mp hnodup 0 4096 _ _ (by omega)
    (hget 0 (by omega)) (hget 4096 (by omega)) rfl rfl

end ExchangeServer
