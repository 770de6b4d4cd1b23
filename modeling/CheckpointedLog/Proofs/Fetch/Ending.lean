import CheckpointedLog.Proofs.Fetch.Failure
import Mathlib.Data.Prod.Lex

namespace CheckpointedLog

variable {ω : Type}

/-- The place of a stage on the way of a cancelled loop to its end. -/
def FetchStage.rank : FetchStage → ℕ ×ₗ ℕ
  | .finished _ => toLex (0, 0)
  | .idle | .pausing _ => toLex (1, 0)
  | .delivering _ records _ _ => toLex (2, records.length)
  | .awaiting .. => toLex (3, 0)
  | .positioning _ todo => toLex (4, 2 * todo.length)
  | .recording _ todo _ _ => toLex (4, 2 * todo.length + 1)

namespace FetchStage

theorem rank_lt_of_fst {a b c d : ℕ} (h : a < c) : toLex (a, b) < toLex (c, d) :=
  Prod.Lex.toLex_lt_toLex.mpr (Or.inl h)

theorem rank_lt_of_snd {a b d : ℕ} (h : b < d) : toLex (a, b) < toLex (a, d) :=
  Prod.Lex.toLex_lt_toLex.mpr (Or.inr ⟨rfl, h⟩)

theorem Resting.rank_le {stage : FetchStage} (h : stage.Resting) : stage.rank ≤ toLex (1, 0) := by
  cases stage with
  | idle | pausing => exact le_refl _
  | finished => exact (rank_lt_of_fst (by decide)).le
  | positioning | recording | awaiting | delivering => cases h

end FetchStage

namespace FetchLoop

open FetchStage

variable {client : BrokerClient ω} {now : Nat} {l l' : FetchLoop} {f f' : Fetcher} {w w' : ω}
  {r : Option Record}

/-- Each step of a cancelled loop that has not ended takes it nearer to its end. -/
theorem Step.rank_lt (hstep : l.Step client now f w l' f' w' r) (hcancelled : f.isCancelled = true)
    (hlive : l.result? = none) : l'.stage.rank < l.stage.rank := by
  cases hstep with
  | begun h =>
    have hnext : (l.beginRound f now).stage = .finished (.ok ()) := by
      rw [beginRound, if_pos hcancelled]
    rw [hnext]
    rcases h with h | ⟨wake, h⟩ <;> rw [h] <;> exact rank_lt_of_fst (by decide)
  | known h | positioned h =>
    rw [h]
    exact rank_lt_of_snd (by simp)
  | recorded h =>
    rw [h]
    exact rank_lt_of_snd (Nat.lt_succ_self _)
  | resolved h =>
    rw [h]
    exact rank_lt_of_snd (by simp; omega)
  | untracked h | overflowed h | unresolved h =>
    rw [h]
    exact (failRound_resting ..).rank_le.trans_lt (rank_lt_of_fst (by decide))
  | polled h =>
    rw [h]
    exact rank_lt_of_fst (by decide)
  | settled h =>
    rw [h]
    rcases settle_stage f now none l _ with hrest | ⟨o, records, rest, failure, -, -, -, hstage⟩
    · exact hrest.rank_le.trans_lt (rank_lt_of_fst (by decide))
    · rw [hstage]
      exact rank_lt_of_fst (by decide)
  | delivered h =>
    rw [settleRest, if_pos hcancelled, h]
    exact rank_lt_of_fst (by decide)
  | skipped h =>
    rw [h]
    exact rank_lt_of_snd (Nat.lt_succ_self _)
  | dropped h =>
    rw [h]
    exact rank_lt_of_fst (by decide)
  | emitted _ _ hlive => cases hcancelled.symm.trans hlive
  | ended h =>
    rw [result?, h] at hlive
    cases hlive

end FetchLoop

end CheckpointedLog
