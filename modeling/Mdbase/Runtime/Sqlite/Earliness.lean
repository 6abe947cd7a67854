import Mdbase.Runtime.Sqlite.Persistence
import Mdbase.Runtime.Sqlite.TextOrder
import Mdbase.Runtime.Sqlite.Timers

/-!
# What the SQLite store does too early

A claim hands out a timer or a run, or revokes a lease, when the text of a stored instant is at
most that of the present one. It is never early for a stored instant exactly if the texts tell
that instant from a present before it.
-/

namespace Mdbase.Runtime.Sqlite

open Library

/-- Nothing that waits for an instant is done at a time before it. -/
structure NeverEarly (stored now : DateTime) : Prop where
  timers : ∀ timers : TimerTable, (∀ row ∈ timers, ∃ lease, row = timerRow lease row.recordJson) →
    ∀ worker leaseFor token next claim,
      claimDueTimer timers worker now leaseFor token = some (.ok (next, some claim)) →
      claim.timer.fireAt = stored → stored ≤ now
  runs : ∀ tables : Tables, (∀ row ∈ tables.runs, ∃ lease, row = runRow lease row.recordJson) →
    ∀ executor worker leaseFor token next claim,
      claimRun tables executor worker now leaseFor token = some (.ok (next, some claim)) →
      claim.run.plan.notBefore = stored → stored ≤ now
  timerLeases : ∀ (lease : Lease) (timer : TimerRecord), lease.expiresAt = stored →
    ((timerRow (some lease) timer).releaseExpired now).leaseToken = none → stored ≤ now
  runLeases : ∀ (lease : Lease) (run : RunRecord), lease.expiresAt = stored →
    ((runRow (some lease) run).releaseExpired now).leaseToken = none → stored ≤ now

variable {now : DateTime}

theorem due_of_dueTimer {timers : TimerTable} {timer : TimerRecord}
    (written : ∀ row ∈ timers, ∃ lease, row = timerRow lease row.recordJson)
    (selected : dueTimer (releaseExpiredTimers timers now) now = some timer) :
    timestamp timer.fireAt ≤ timestamp now := by
  obtain ⟨row, head, rfl⟩ := Option.map_eq_some_iff.mp selected
  have member := List.mem_of_head? head
  rw [List.mem_insertionSort, List.mem_filter, decide_eq_true_iff] at member
  obtain ⟨listed, -, due, -⟩ := member
  obtain ⟨original, stored, rfl⟩ := List.mem_map.mp listed
  obtain ⟨lease, same⟩ := written original stored
  have columns : (original.releaseExpired now).fireAt =
      timestamp (original.releaseExpired now).recordJson.fireAt := by
    unfold TimerRow.releaseExpired
    rw [same]
    split <;> rfl
  rwa [columns] at due

theorem due_of_selectedRun {tables : Tables} {executor : String}
    {run : RunRecord} (written : ∀ row ∈ tables.runs, ∃ lease, row = runRow lease row.recordJson)
    (selected : selectedRun (releaseExpired tables now) executor now = some run) :
    timestamp run.plan.notBefore ≤ timestamp now := by
  obtain ⟨row, taken, rfl⟩ := List.mem_map.mp (List.mem_of_find?_eq_some selected)
  have member := List.mem_of_mem_take taken
  rw [List.mem_insertionSort, List.mem_filter, decide_eq_true_iff] at member
  obtain ⟨listed, -, -, due, -⟩ := member
  obtain ⟨original, stored, rfl⟩ := List.mem_map.mp listed
  obtain ⟨lease, same⟩ := written original stored
  have columns : (original.releaseExpired now).notBefore =
      timestamp (original.releaseExpired now).recordJson.plan.notBefore := by
    unfold RunRow.releaseExpired
    rw [same]
    split <;> rfl
  rwa [columns] at due

theorem claimDueTimer_selects {timers next : TimerTable} {worker token : String}
    {leaseFor : Duration} {claim : TimerClaim}
    (claimed : claimDueTimer timers worker now leaseFor token = some (.ok (next, some claim))) :
    ∃ timer, dueTimer (releaseExpiredTimers timers now) now = some timer ∧
      claim.timer.fireAt = timer.fireAt := by
  unfold claimDueTimer at claimed
  dsimp only at claimed
  split at claimed
  next => cases claimed
  rename_i timer selected
  obtain ⟨expiresAt, -, claimed⟩ := Transaction.bind_eq_ok.mp claimed
  obtain ⟨generation, -, claimed⟩ := Transaction.bind_eq_ok.mp claimed
  split at claimed
  next => cases claimed
  split at claimed
  next =>
    cases claimed
    exact ⟨timer, selected, rfl⟩
  next => cases claimed

theorem claimRun_selects {tables next : Tables} {executor worker token : String}
    {leaseFor : Duration} {claim : Claim}
    (claimed : claimRun tables executor worker now leaseFor token = some (.ok (next, some claim))) :
    ∃ run, selectedRun (releaseExpired tables now) executor now = some run ∧
      claim.run.plan = run.plan := by
  unfold claimRun at claimed
  dsimp only at claimed
  split at claimed
  next => cases claimed
  rename_i run selected
  obtain ⟨expiresAt, -, claimed⟩ := Transaction.bind_eq_ok.mp claimed
  obtain ⟨revision, -, claimed⟩ := Transaction.bind_eq_ok.mp claimed
  split at claimed
  next => cases claimed
  split at claimed
  next =>
    cases claimed
    refine ⟨run, selected, ?_⟩
    dsimp only
    unfold Memory.startRun
    split <;> rfl
  next => cases claimed

/-- The store is never early for an instant if and only if its text comes after that of the
present, as long as the instant does. -/
theorem neverEarly_iff (stored now : DateTime) :
    NeverEarly stored now ↔ (now < stored → InOrder now stored) := by
  constructor
  · intro never before
    by_contra unordered
    have due : timestamp stored ≤ timestamp now :=
      not_lt.mp fun below => unordered ((timestamp_lt_iff_inOrder before.le).mp below)
    refine absurd (never.timerLeases ⟨"w", "t", stored⟩ default rfl ?_) (not_le.mpr before)
    rw [TimerRow.releaseExpired, if_pos]
    exact decide_eq_true due
  · intro ordered
    have due (texts : timestamp stored ≤ timestamp now) : stored ≤ now := by
      by_contra early
      have before : now < stored := not_le.mp early
      exact absurd texts (not_le.mpr ((timestamp_lt_iff_inOrder before.le).mpr (ordered before)))
    have released {expires : Option String} (here : expires = some (timestamp stored))
        (past : (expires.any fun expiresAt => expiresAt ≤ timestamp now) = true) : stored ≤ now := by
      rw [here] at past
      exact due (of_decide_eq_true past)
    refine ⟨?_, ?_, ?_, ?_⟩
    · intro timers written worker leaseFor token next claim claimed fireAt
      obtain ⟨timer, selected, same⟩ := claimDueTimer_selects claimed
      have texts := due_of_dueTimer written selected
      rw [← same, fireAt] at texts
      exact due texts
    · intro tables written executor worker leaseFor token next claim claimed notBefore
      obtain ⟨run, selected, same⟩ := claimRun_selects claimed
      have texts := due_of_selectedRun written selected
      rw [← same, notBefore] at texts
      exact due texts
    · intro lease timer expires revoked
      rw [TimerRow.releaseExpired] at revoked
      split at revoked
      next past => exact released (congrArg (fun instant => some (timestamp instant)) expires) past
      next => cases revoked
    · intro lease run expires revoked
      rw [RunRow.releaseExpired] at revoked
      split at revoked
      next past => exact released (congrArg (fun instant => some (timestamp instant)) expires) past
      next => cases revoked

/-- A timer that is due half a millisecond later is handed out, and a lease that ends then is
revoked. -/
theorem store_is_early :
    let timer : TimerRecord := { (default : TimerRecord) with id := "t", fireAt := 1500000 }
    (∃ next claim,
      claimDueTimer (Table.empty.insert (timerRow none timer)) "w" 1200000 1000 "u" =
          some (.ok (next, some claim)) ∧ (1200000 : Int) < claim.timer.fireAt) ∧
      ((timerRow (some ⟨"v", "t", 1500000⟩) timer).releaseExpired 1200000).leaseToken = none ∧
      ¬NeverEarly 1500000 1200000 := by
  intro timer
  have claimed : ((claimDueTimer (Table.empty.insert (timerRow none timer)) "w" 1200000 1000
      "u").any fun reply => (reply.toOption.bind Prod.snd).any fun claim =>
        decide ((1200000 : Int) < claim.timer.fireAt)) = true := by decide +kernel
  have revoked : ((timerRow (some ⟨"v", "t", 1500000⟩) timer).releaseExpired 1200000).leaseToken =
      none := by decide +kernel
  refine ⟨?_, revoked, fun never => ?_⟩
  · obtain ⟨reply, here, early⟩ := (Option.any_eq_true _ _).mp claimed
    rcases reply with error | ⟨next, _ | claim⟩
    · cases early
    · cases early
    · exact ⟨next, claim, here, of_decide_eq_true early⟩
  · exact absurd (never.timerLeases _ _ rfl revoked) (by decide)

end Mdbase.Runtime.Sqlite
