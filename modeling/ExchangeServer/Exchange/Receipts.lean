import ExchangeServer.Exchange.Flow
import ExchangeServer.Exchange.Laws

/-!
# Receipts

Which records have been applied to the accounts.  An observer writes down the record of
every `commitBuy`, of every `commitSell` and of every release of a cancelled order.
`runs_receipted` says that nothing is lost on the way: the records that the workers have
made are those that have been applied and those that are still waiting.
-/

namespace ExchangeServer

open Lib

/-! ## Records of the clearing house -/

/-- What an event that applies no record adds to the records made and to the records
waiting. -/
theorem Clearing.Step.records_kept {tickers : TickerManager} {c c' : Clearing} {e : Event}
    (h : Clearing.Step tickers c e c') (hbuy : e ≠ .commitBuy) (hsell : e ≠ .commitSell)
    (hrelease : e ≠ .release) :
    ∃ records cancels,
      (c'.traded = records + c.traded ∧ c'.unbought = records + c.unbought ∧
        c'.unsold = records + c.unsold) ∧
      (c'.cancelled = cancels + c.cancelled ∧ c'.cancels = cancels + c.cancels) := by
  cases h with
  | market orders records cancels parties listed trades =>
      refine ⟨records, cancels, ⟨rfl, ?_, ?_⟩, rfl, rfl⟩
      · exact add_left_comm _ _ _
      · exact add_left_comm _ _ _
  | start rec rest idle hrec =>
      refine ⟨0, 0, ⟨(zero_add _).symm, ?_, ?_⟩, (zero_add _).symm, (zero_add _).symm⟩
      · rw [Clearing.unbought, Clearing.unbought, Clearing.buying, Clearing.buying, idle, hrec]
        simp [SettleJob.start]
      · rw [Clearing.unsold, Clearing.unsold, Clearing.selling, Clearing.selling, idle, hrec]
        simp [SettleJob.start]
  | call job k fault hjob =>
      refine ⟨0, 0, ⟨(zero_add _).symm, ?_, ?_⟩, (zero_add _).symm, (zero_add _).symm⟩
      · rw [Clearing.unbought, Clearing.unbought, Clearing.buying, Clearing.buying, hjob]
        cases k <;> exact (zero_add _).symm
      · rw [Clearing.unsold, Clearing.unsold, Clearing.selling, Clearing.selling, hjob]
        exact (zero_add _).symm
  | commitBuy job hjob => exact absurd rfl hbuy
  | commitSell job hjob => exact absurd rfl hsell
  | release rec rest idle hrec => exact absurd rfl hrelease
  | _ =>
      exact ⟨0, 0, ⟨(zero_add _).symm, (zero_add _).symm, (zero_add _).symm⟩, (zero_add _).symm,
        (zero_add _).symm⟩

/-! ## The observer -/

/-- The records that have been applied to the accounts. -/
structure Receipts where
  bought : Multiset MatchRecord
  sold : Multiset MatchRecord
  released : Multiset CancelRecord

namespace Exchange

/-- What the observer notes of an action. -/
def noteReceipts (s : Exchange) (a : Action) (n : Receipts) : Receipts :=
  match a with
  | .commitBuy =>
      { n with bought := n.bought + (s.settlement.current.map fun e => e.1.record).toList }
  | .commitSell =>
      { n with sold := n.sold + (s.settlement.current.map fun e => e.1.record).toList }
  | .cancelRelease => { n with released := n.released + s.settlement.cancelBuffer.head?.toList }
  | _ => n

/-- The receipts at the end of a run. -/
def receipts (s : Exchange) (actions : List Action) : Receipts :=
  follow noteReceipts step s ⟨0, 0, 0⟩ actions

/-- The records made are those that have been applied and those that are waiting. -/
structure Receipted (s : Exchange) (n : Receipts) : Prop where
  bought : s.clearing.traded = n.bought + s.clearing.unbought
  sold : s.clearing.traded = n.sold + s.clearing.unsold
  released : s.clearing.cancelled = n.released + s.clearing.cancels

variable {users : UserManager} {tickers : TickerManager} {db : Database}
  {walFile : Option (List WALRecord)} {actions : List Action} {s s' : Exchange} {a : Action}
  {n : Receipts}

theorem Receipted.of_kept (h : Receipted s n) {records : Multiset MatchRecord}
    {cancels : Multiset CancelRecord}
    (hrecords : s'.clearing.traded = records + s.clearing.traded ∧
      s'.clearing.unbought = records + s.clearing.unbought ∧
      s'.clearing.unsold = records + s.clearing.unsold)
    (hcancels : s'.clearing.cancelled = cancels + s.clearing.cancelled ∧
      s'.clearing.cancels = cancels + s.clearing.cancels) : Receipted s' n := by
  obtain ⟨htraded, hunbought, hunsold⟩ := hrecords
  refine ⟨?_, ?_, ?_⟩
  · rw [htraded, hunbought, h.bought]
    exact add_left_comm _ _ _
  · rw [htraded, hunsold, h.sold]
    exact add_left_comm _ _ _
  · rw [hcancels.1, hcancels.2, h.released]
    exact add_left_comm _ _ _

theorem Receipted.step (h : Receipted s n) (hclears : Clears s a s')
    (hstep : s.step a = some s') : Receipted s' (s.noteReceipts a n) := by
  cases a with
  | commitBuy =>
      cases step_spec hstep with
      | commitBuy job hjob =>
          have hinHand : s.clearing.inHand = some (job, .commitBuy) := hjob
          have hbought := h.bought
          have hsold := h.sold
          unfold Clearing.unbought Clearing.buying at hbought
          unfold Clearing.unsold Clearing.selling at hsold
          rw [hinHand] at hbought hsold
          refine ⟨?_, hsold, h.released⟩
          show s.clearing.traded = n.bought + (s.settlement.current.map fun e => e.1.record).toList
            + (0 + s.clearing.records)
          rw [hjob, hbought, zero_add, add_assoc]
          rfl
  | commitSell =>
      cases step_spec hstep with
      | commitSell job hjob =>
          have hinHand : s.clearing.inHand = some (job, .commitSell) := hjob
          have hbought := h.bought
          have hsold := h.sold
          unfold Clearing.unbought Clearing.buying at hbought
          unfold Clearing.unsold Clearing.selling at hsold
          rw [hinHand] at hbought hsold
          refine ⟨hbought, ?_, h.released⟩
          show s.clearing.traded = n.sold + (s.settlement.current.map fun e => e.1.record).toList
            + (0 + s.clearing.records)
          rw [hjob, hsold, zero_add, add_assoc]
          rfl
  | cancelRelease =>
      cases step_spec hstep with
      | cancelRelease rec rest hcurrent hbuffer hcancels =>
          refine ⟨h.bought, h.sold, ?_⟩
          have hreleased := h.released
          change s.clearing.cancelled = n.released
            + ((s.settlement.cancelQueue.elems ++ s.settlement.cancelBuffer : List CancelRecord) :
              Multiset CancelRecord) at hreleased
          show s.clearing.cancelled = n.released + (s.settlement.cancelBuffer.head?.toList :
              Multiset CancelRecord)
            + ((s.settlement.cancelQueue.elems ++ rest : List CancelRecord) : Multiset CancelRecord)
          rw [hreleased, hcancels, add_assoc]
          refine congrArg (n.released + ·) (Multiset.coe_eq_coe.mpr ?_)
          exact List.perm_middle
  | _ =>
      -- Every other action applies no record: what it makes, it adds to what waits.
      rcases hclears.clearing with hsame | ⟨e, hraises, hevent⟩
      · have hrecords : s'.clearing.traded = 0 + s.clearing.traded ∧
            s'.clearing.unbought = 0 + s.clearing.unbought ∧
            s'.clearing.unsold = 0 + s.clearing.unsold := by
          rw [hsame, zero_add, zero_add, zero_add]
          exact ⟨rfl, rfl, rfl⟩
        have hcancels : s'.clearing.cancelled = 0 + s.clearing.cancelled ∧
            s'.clearing.cancels = 0 + s.clearing.cancels := by
          rw [hsame, zero_add, zero_add]
          exact ⟨rfl, rfl⟩
        exact h.of_kept hrecords hcancels
      · obtain ⟨records, cancels, hrecords, hcancels⟩ := hevent.records_kept
          (by rintro rfl; cases hraises) (by rintro rfl; cases hraises)
          (by rintro rfl; cases hraises)
        exact h.of_kept hrecords hcancels

/-- **No record is lost**: in every run, the records made are those that have been applied
and those that are waiting. -/
theorem runs_receipted (hrun : runs step (start users tickers db walFile) actions = some s) :
    Receipted s ((start users tickers db walFile).receipts actions) := by
  have hfresh := start_fresh users tickers db walFile
  refine runs_reachable (I := fun as t => Receipted t
    ((start users tickers db walFile).receipts as)) actions ?_ ?_ hrun
  · refine ⟨?_, ?_, ?_⟩
    · rw [Clearing.unbought, Clearing.buying, hfresh.inHand, hfresh.records, hfresh.traded]
      rfl
    · rw [Clearing.unsold, Clearing.selling, hfresh.inHand, hfresh.records, hfresh.traded]
      rfl
    · rw [hfresh.cancels, hfresh.cancelled]
      rfl
  · intro as t a t' hreach h ha
    have hnotes : (start users tickers db walFile).receipts (as ++ [a])
        = t.noteReceipts a ((start users tickers db walFile).receipts as) := follow_snoc hreach ha
    rw [hnotes]
    exact h.step (reached_clears hreach ha) ha

end Exchange

end ExchangeServer
