import Mathlib.Data.List.Perm.Basic

/-!
# Queues with several producers

A lock-free queue that keeps the order of the elements of each producer and
promises nothing across producers.  Elements are kept in the order they were
enqueued, each with its producer; a consumer may be handed the oldest element of
any producer, so which producers it is served from is an argument of `dequeue`
and of `dequeueBulk`.

`dequeueBulk_perm` says that taking elements out neither loses, invents nor
duplicates any, and `dequeueBulk_fifo` that the elements of one producer come out in
the order they went in.
-/

namespace ExchangeServer.Lib

/-- Elements with their producers, in the order they were enqueued. -/
abbrev ProducerQueue (P α : Type*) := List (P × α)

namespace ProducerQueue

variable {P α : Type*}

/-- The elements, without their producers. -/
def elems (q : ProducerQueue P α) : List α :=
  q.map Prod.snd

@[simp] theorem elems_nil : elems ([] : ProducerQueue P α) = [] := rfl

/-- `enqueue` and `enqueue_bulk`. -/
def enqueue (q : ProducerQueue P α) (p : P) (as : List α) : ProducerQueue P α :=
  q ++ as.map (Prod.mk p)

@[simp] theorem elems_enqueue (q : ProducerQueue P α) (p : P) (as : List α) :
    elems (enqueue q p as) = elems q ++ as := by
  simp [elems, enqueue, Function.comp_def]

@[simp] theorem length_enqueue (q : ProducerQueue P α) (p : P) (as : List α) :
    (enqueue q p as).length = q.length + as.length := by
  simp [enqueue]

/-- The same queue with other elements. -/
def mapElems {β : Type*} (f : α → β) (q : ProducerQueue P α) : ProducerQueue P β :=
  List.map (fun e => (e.1, f e.2)) q

theorem mapElems_enqueue {β : Type*} (f : α → β) (q : ProducerQueue P α) (p : P) (as : List α) :
    mapElems f (enqueue q p as) = enqueue (mapElems f q) p (as.map f) := by
  simp [mapElems, enqueue, Function.comp_def]

variable [DecidableEq P]

/-- The elements of one producer, oldest first. -/
def ofProducer (p : P) (q : ProducerQueue P α) : List α :=
  (q.filter fun e => e.1 = p).map Prod.snd

theorem ofProducer_append (p : P) (q q' : ProducerQueue P α) :
    ofProducer p (q ++ q') = ofProducer p q ++ ofProducer p q' := by
  simp [ofProducer]

theorem mem_ofProducer {p : P} {a : α} {q : ProducerQueue P α} :
    a ∈ ofProducer p q ↔ (p, a) ∈ q := by
  simp [ofProducer]

theorem ofProducer_sublist (p : P) (q : ProducerQueue P α) : (ofProducer p q).Sublist (elems q) :=
  List.filter_sublist.map Prod.snd

/-- The oldest element of `p`, and the queue without it. -/
def dequeue (p : P) : ProducerQueue P α → Option (α × ProducerQueue P α)
  | [] => none
  | (p', a) :: rest =>
      if p' = p then some (a, rest)
      else (dequeue p rest).map fun out => (out.1, (p', a) :: out.2)

/-- Elements served from the producers `picks`, one after the other. -/
def dequeueBulk : List P → ProducerQueue P α → Option (List α × ProducerQueue P α)
  | [], q => some ([], q)
  | p :: picks, q =>
      (dequeue p q).bind fun out =>
        (dequeueBulk picks out.2).map fun later => (out.1 :: later.1, later.2)

theorem dequeue_perm {p : P} {q q' : ProducerQueue P α} {a : α}
    (h : dequeue p q = some (a, q')) : (elems q).Perm (a :: elems q') := by
  induction q generalizing q' with
  | nil => cases h
  | cons e rest ih =>
      obtain ⟨p', b⟩ := e
      simp only [dequeue] at h
      split_ifs at h with hp
      · obtain ⟨rfl, rfl⟩ := Prod.mk.inj (Option.some.inj h)
        exact List.Perm.refl _
      · obtain ⟨out, hout, heq⟩ := Option.map_eq_some_iff.mp h
        obtain ⟨rfl, rfl⟩ := Prod.mk.inj heq
        exact ((ih hout).cons b).trans (List.Perm.swap _ _ _)

/-- **A bulk dequeue moves elements out of the queue** and changes nothing else. -/
theorem dequeueBulk_perm {picks : List P} {q q' : ProducerQueue P α} {as : List α}
    (h : dequeueBulk picks q = some (as, q')) : (elems q).Perm (as ++ elems q') := by
  induction picks generalizing q as with
  | nil =>
      obtain ⟨rfl, rfl⟩ := Prod.mk.inj (Option.some.inj h)
      exact List.Perm.refl _
  | cons p picks ih =>
      obtain ⟨out, hout, hrest⟩ := Option.bind_eq_some_iff.mp h
      obtain ⟨later, hlater, heq⟩ := Option.map_eq_some_iff.mp hrest
      obtain ⟨rfl, rfl⟩ := Prod.mk.inj heq
      exact (dequeue_perm hout).trans ((ih hlater).cons out.1)

/-- Nothing comes out of an empty queue. -/
theorem dequeueBulk_nil {picks : List P} {q' : ProducerQueue P α} {as : List α}
    (h : dequeueBulk picks [] = some (as, q')) : as = [] ∧ q' = [] := by
  have hnil := (dequeueBulk_perm h).nil_eq.symm
  exact ⟨(List.append_eq_nil_iff.mp hnil).1, List.map_eq_nil_iff.mp (List.append_eq_nil_iff.mp hnil).2⟩

theorem length_dequeue {p : P} {q q' : ProducerQueue P α} {a : α}
    (h : dequeue p q = some (a, q')) : q.length = q'.length + 1 := by
  simpa [elems] using (dequeue_perm h).length_eq

theorem length_dequeueBulk {picks : List P} {q q' : ProducerQueue P α} {as : List α}
    (h : dequeueBulk picks q = some (as, q')) :
    as.length = picks.length ∧ q.length = q'.length + picks.length := by
  induction picks generalizing q as with
  | nil =>
      obtain ⟨rfl, rfl⟩ := Prod.mk.inj (Option.some.inj h)
      exact ⟨rfl, rfl⟩
  | cons p picks ih =>
      obtain ⟨out, hout, hrest⟩ := Option.bind_eq_some_iff.mp h
      obtain ⟨later, hlater, heq⟩ := Option.map_eq_some_iff.mp hrest
      obtain ⟨rfl, rfl⟩ := Prod.mk.inj heq
      obtain ⟨has, hq⟩ := ih hlater
      have hfirst := length_dequeue hout
      exact ⟨congrArg Nat.succ has, by rw [List.length_cons]; omega⟩

/-- A producer with an element can be served from. -/
theorem exists_dequeue {p : P} {q : ProducerQueue P α} (h : p ∈ q.map Prod.fst) :
    ∃ a q', dequeue p q = some (a, q') := by
  induction q with
  | nil => cases h
  | cons e rest ih =>
      obtain ⟨p', b⟩ := e
      by_cases hp : p' = p
      · exact ⟨b, rest, by rw [dequeue, if_pos hp]⟩
      · rcases List.mem_cons.mp h with heq | hrest
        · exact absurd heq.symm hp
        · obtain ⟨a, q', hq'⟩ := ih hrest
          exact ⟨a, (p', b) :: q', by rw [dequeue, if_neg hp, hq']; rfl⟩

/-- Serving from one producer leaves the others what they have. -/
theorem mem_dequeue {p p' : P} {q q' : ProducerQueue P α} {a : α}
    (h : dequeue p q = some (a, q')) (hne : p' ≠ p) (hmem : p' ∈ q.map Prod.fst) :
    p' ∈ q'.map Prod.fst := by
  induction q generalizing q' with
  | nil => cases h
  | cons e rest ih =>
      obtain ⟨p₀, b⟩ := e
      simp only [dequeue] at h
      split_ifs at h with hp
      · obtain ⟨-, rfl⟩ := Prod.mk.inj (Option.some.inj h)
        rcases List.mem_cons.mp hmem with heq | hrest
        · exact absurd (heq.trans hp) hne
        · exact hrest
      · obtain ⟨out, hout, heq⟩ := Option.map_eq_some_iff.mp h
        obtain ⟨rfl, rfl⟩ := Prod.mk.inj heq
        rcases List.mem_cons.mp hmem with heq | hrest
        · exact List.mem_cons.mpr (Or.inl heq)
        · exact List.mem_cons.mpr (Or.inr (ih hout hrest))

theorem dequeue_fifo {p p' : P} {q q' : ProducerQueue P α} {a : α}
    (h : dequeue p q = some (a, q')) :
    ofProducer p' q = ofProducer p' [(p, a)] ++ ofProducer p' q' := by
  induction q generalizing q' with
  | nil => cases h
  | cons e rest ih =>
      obtain ⟨p₀, b⟩ := e
      simp only [dequeue] at h
      split_ifs at h with hp
      · obtain ⟨rfl, rfl⟩ := Prod.mk.inj (Option.some.inj h)
        subst hp
        rw [← ofProducer_append]
        rfl
      · obtain ⟨out, hout, heq⟩ := Option.map_eq_some_iff.mp h
        obtain ⟨rfl, rfl⟩ := Prod.mk.inj heq
        have hsplit : ∀ q : ProducerQueue P α, ofProducer p' ((p₀, b) :: q)
            = ofProducer p' [(p₀, b)] ++ ofProducer p' q := fun q =>
          ofProducer_append p' [(p₀, b)] q
        rw [hsplit, hsplit, ih hout]
        -- One of the two elements is not of the producer in question.
        by_cases hp' : p₀ = p'
        · subst hp'
          simp [ofProducer, Ne.symm hp]
        · simp [ofProducer, hp']

/-- **First in, first out for each producer**: what is taken out and what is left are,
for each producer, what there was. -/
theorem dequeueBulk_fifo {picks : List P} {q q' : ProducerQueue P α} {as : List α}
    (h : dequeueBulk picks q = some (as, q')) :
    picks.length = as.length ∧
      ∀ p, ofProducer p q = ofProducer p (picks.zip as) ++ ofProducer p q' := by
  induction picks generalizing q as with
  | nil =>
      obtain ⟨rfl, rfl⟩ := Prod.mk.inj (Option.some.inj h)
      exact ⟨rfl, fun p => rfl⟩
  | cons p₀ picks ih =>
      obtain ⟨out, hout, hrest⟩ := Option.bind_eq_some_iff.mp h
      obtain ⟨later, hlater, heq⟩ := Option.map_eq_some_iff.mp hrest
      obtain ⟨rfl, rfl⟩ := Prod.mk.inj heq
      obtain ⟨hlength, hfifo⟩ := ih hlater
      refine ⟨congrArg (· + 1) hlength, fun p => ?_⟩
      rw [dequeue_fifo hout, hfifo p, List.zip_cons_cons, ← List.append_assoc,
        ← ofProducer_append]
      rfl

theorem dequeue_mapElems {β : Type*} (f : α → β) (p : P) (q : ProducerQueue P α) :
    dequeue p (mapElems f q) = (dequeue p q).map fun out => (f out.1, mapElems f out.2) := by
  induction q with
  | nil => rfl
  | cons e rest ih =>
      obtain ⟨p', b⟩ := e
      show dequeue p ((p', f b) :: mapElems f rest) = _
      simp only [dequeue]
      split_ifs
      · rfl
      · rw [ih, Option.map_map, Option.map_map]
        rfl

theorem dequeueBulk_mapElems {β : Type*} (f : α → β) (picks : List P) (q : ProducerQueue P α) :
    dequeueBulk picks (mapElems f q)
      = (dequeueBulk picks q).map fun out => (out.1.map f, mapElems f out.2) := by
  induction picks generalizing q with
  | nil => rfl
  | cons p picks ih =>
      simp only [dequeueBulk, dequeue_mapElems]
      cases dequeue p q with
      | none => rfl
      | some out =>
          simp only [Option.map_some, Option.bind_some, ih, Option.map_map]
          rfl

end ProducerQueue

/-! ## Which element comes first -/

/-- `a` stands before `b` in the list. -/
def Precedes {α : Type*} (l : List α) (a b : α) : Prop :=
  List.Sublist [a, b] l

namespace Precedes

variable {α : Type*} {l r : List α} {a b : α}

theorem sublist (h : Precedes l a b) (hlr : l.Sublist r) : Precedes r a b :=
  List.Sublist.trans h hlr

theorem append_right (h : Precedes l a b) (r : List α) : Precedes (l ++ r) a b :=
  h.sublist (List.sublist_append_left l r)

theorem filter (h : Precedes l a b) {p : α → Bool} (ha : p a = true) (hb : p b = true) :
    Precedes (l.filter p) a b := by
  have hpair : [a, b].filter p = [a, b] := by simp [ha, hb]
  have hfilter : ([a, b].filter p).Sublist (l.filter p) := List.Sublist.filter p h
  rw [hpair] at hfilter
  exact hfilter

theorem across (ha : a ∈ l) (hb : b ∈ r) : Precedes (l ++ r) a b :=
  List.Sublist.append (List.singleton_sublist.mpr ha) (List.singleton_sublist.mpr hb)

/-- What stands before an element of the first part is in the first part. -/
theorem of_append (h : Precedes (l ++ r) a b) (hb : b ∉ r) : Precedes l a b := by
  induction l with
  | nil => exact absurd (h.subset (by simp)) hb
  | cons c l ih =>
      cases h with
      | cons _ h => exact (ih h).sublist (List.sublist_cons_self c l)
      | cons_cons _ h =>
          have hbl : b ∈ l ++ r := List.singleton_sublist.mp h
          have hb' : b ∈ l := (List.mem_append.mp hbl).resolve_right hb
          exact List.Sublist.cons_cons a (List.singleton_sublist.mpr hb')

/-- In a list sorted by `R` the elements stand as `R` says. -/
theorem of_pairwise {R : α → α → Prop} (hl : l.Pairwise R) (ha : a ∈ l) (hb : b ∈ l)
    (hab : ¬ R b a) (hne : a ≠ b) : Precedes l a b := by
  induction l with
  | nil => cases ha
  | cons c l ih =>
      obtain ⟨hc, hrest⟩ := List.pairwise_cons.mp hl
      rcases List.mem_cons.mp ha with rfl | hal
      · have hbl : b ∈ l := (List.mem_cons.mp hb).resolve_left (Ne.symm hne)
        exact List.Sublist.cons_cons a (List.singleton_sublist.mpr hbl)
      · rcases List.mem_cons.mp hb with rfl | hbl
        · exact absurd (hc a hal) hab
        · exact (ih hrest hal hbl).sublist (List.sublist_cons_self c l)

end Precedes

end ExchangeServer.Lib
