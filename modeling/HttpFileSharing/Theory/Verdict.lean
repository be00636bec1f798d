import HttpFileSharing.Theory.Ledger

/-!
# The Two Verdicts

Whether an address is turned away is told twice: by `update_ip_addr_stats`,
which returns it for the score it has just left, and by `is_ipaddr_blacklisted`
for whoever comes next. The first takes an address for good when its score is
above the threshold and the second when it is not below it, so at the threshold
itself they disagree.

The update is taken here as one call. It is what its five steps do with no one
in between, and after a run of the module it goes through wherever the new
score is in range.

## Theorems

* `Blacklist.updateIpAddrStats_score`: What an update returns and leaves.
* `Blacklist.run_updateIpAddrStats`: An update is what its steps do.
* `Blacklist.updateIpAddrStats_completes`: With no update in progress, one
  goes through.
* `Blacklist.verdicts_agree_exact`: The exact condition on the score.
* `Blacklist.verdicts_disagree`: A score at the threshold.
-/

namespace HttpFileSharing

namespace Blacklist

section Call

variable (threshold : Int) (stats : StatsList) (table : StatsTable) (ip : IpAddr) (good : Bool)
  (ret : Bool) (stats' : StatsList) (table' : StatsTable)

/-- An update leaves the old score, zero where there was none, plus its own
    step, returns the verdict on it, and leaves the other scores alone. -/
theorem updateIpAddrStats_score
    (h : updateIpAddrStats threshold stats table ip good = some (ret, stats', table')) :
    ret = goodForNow threshold ((Finmap.lookup ip stats).getD 0 + delta good) ∧
      ∀ a, Finmap.lookup a stats' = if a = ip
        then some ((Finmap.lookup ip stats).getD 0 + delta good) else Finmap.lookup a stats := by
  rw [updateIpAddrStats] at h
  cases hscore : Finmap.lookup ip stats with
  | none =>
      simp only [hscore] at h
      split at h
      · simp only [Option.some.injEq, Prod.mk.injEq] at h
        rcases h with ⟨rfl, rfl, _⟩
        rw [Option.getD_none, Int.zero_add]
        exact ⟨rfl, fun a => StdMap.lookup_emplace_new stats ip a _ hscore⟩
      · exact absurd h (by simp only [reduceCtorEq, not_false_eq_true])
  | some score =>
      simp only [hscore] at h
      rw [Option.ite_none_right_eq_some] at h
      rcases h with ⟨_, h⟩
      split at h
      · simp only [Option.some.injEq, Prod.mk.injEq] at h
        rcases h with ⟨rfl, rfl, _⟩
        rw [Option.getD_some]
        exact ⟨rfl, fun a => StdMap.lookup_insert_eq stats ip a _⟩
      · exact absurd h (by simp only [reduceCtorEq, not_false_eq_true])

/-- After an update its verdict and that of the next look-up agree exactly when
    the score it left, which is the old one plus its own step, is not the
    threshold. -/
theorem verdicts_agree_exact
    (h : updateIpAddrStats threshold stats table ip good = some (ret, stats', table')) :
    (ret = true ↔ isIpaddrBlacklisted threshold stats' ip = false)
      ↔ (Finmap.lookup ip stats).getD 0 + delta good ≠ threshold := by
  rcases updateIpAddrStats_score threshold stats table ip good ret stats' table' h with
    ⟨hret, hlookup⟩
  have hscore := hlookup ip
  rw [if_pos rfl] at hscore
  rw [hret, isIpaddrBlacklisted, hscore]
  -- One verdict asks for more than the threshold, the other for no less.
  simp only [goodForNow, decide_eq_true_eq, decide_eq_false_iff_not]
  omega

end Call

section Steps

variable {τ : Type*} [DecidableEq τ]

/-- The steps of an update, from the call to the return. -/
def updateSteps (t : τ) (ip : IpAddr) (good : Bool) : List (Action τ) :=
  [.call t ip good, .acquire t, .find t, .storeMap t, .storeDb t, .release t]

/-- An update is what its steps do with no one in between. -/
theorem run_updateIpAddrStats (threshold : Int) (start : StartTable) (s : Ledger τ)
    (p : Process τ) (t : τ) (ip : IpAddr) (good : Bool) (ret : Bool) (stats' : StatsList)
    (table' : StatsTable) (hup : s.process = some p) (hidle : p.pc t = .idle)
    (hwriter : p.writer = none) (hreaders : p.readers = 0)
    (h : updateIpAddrStats threshold p.statsList s.table ip good
      = some (ret, stats', table')) :
    ∃ s' p', (system τ start).run s (updateSteps t ip good) = some s' ∧
      s'.process = some p' ∧ p'.statsList = stats' ∧ s'.table = table' := by
  rw [updateIpAddrStats] at h
  cases hscore : Finmap.lookup ip p.statsList with
  | none =>
      have hnot : ¬ ip ∈ p.statsList := Finmap.lookup_eq_none.mp hscore
      simp only [hscore] at h
      split at h
      · rename_i table'' hinsert
        simp only [Option.some.injEq, Prod.mk.injEq] at h
        rcases h with ⟨_, rfl, rfl⟩
        simp only [updateSteps, System.run, system, step, hup, stepProcess, hidle, Process.goto,
          Function.update_self, hwriter, hreaders, and_self, if_true, hnot, decide_false,
          Bool.false_eq_true, if_false, hinsert, Option.some.injEq, exists_eq_left',
          exists_and_left, and_true]
      · exact absurd h (by simp only [reduceCtorEq, not_false_eq_true])
  | some score =>
      have hmem : ip ∈ p.statsList := Finmap.mem_iff.mpr ⟨score, hscore⟩
      simp only [hscore] at h
      rw [Option.ite_none_right_eq_some] at h
      rcases h with ⟨hrange, h⟩
      split at h
      · rename_i table'' hwrite
        simp only [Option.some.injEq, Prod.mk.injEq] at h
        rcases h with ⟨_, rfl, rfl⟩
        simp only [updateSteps, System.run, system, step, hup, stepProcess, hidle, Process.goto,
          Function.update_self, hwriter, hreaders, and_self, if_true, hmem, decide_true, hscore,
          hrange, hwrite, Option.some.injEq, exists_eq_left', exists_and_left, and_true]
      · exact absurd h (by simp only [reduceCtorEq, not_false_eq_true])

/-- In every reachable state with no update in progress, an update goes through
    where the new score is in range: the statement it picks is the right
    one. -/
theorem updateIpAddrStats_completes (threshold : Int) (start : StartTable) (s : Ledger τ)
    (hr : (system τ start).Reachable s) (p : Process τ) (hup : s.process = some p)
    (hquiet : ∀ t, (p.pc t).updating = none) (ip : IpAddr) (good : Bool)
    (hrange : IntRange ((Finmap.lookup ip p.statsList).getD 0 + delta good)) :
    (updateIpAddrStats threshold p.statsList s.table ip good).isSome = true := by
  have hs := reachable_consistent start hr
  have hsame := (consistent_quiet start.rows s p hs hup hquiet).1
  rw [updateIpAddrStats]
  cases hscore : Finmap.lookup ip p.statsList with
  | none =>
      -- The map has no such address, so the table has none either.
      have hnot : ip ∉ s.table.map Prod.fst := by
        intro hmem
        rcases List.mem_map.mp hmem with ⟨r, hrow, hri⟩
        have hfound := (Rows.lookup_eq_some_iff_mem s.table hs.distinct ip r.2).mpr
          (by rw [← hri]; exact hrow)
        rw [← hsame ip, hscore] at hfound
        exact absurd hfound (by simp only [reduceCtorEq, not_false_eq_true])
      simp only [insertIntoStatsDb, if_neg hnot, Option.isSome_some]
  | some score =>
      rw [hscore, Option.getD_some] at hrange
      simp only [if_pos hrange, updateInStatsDb, Option.isSome_some]

end Steps

/-- A client that never came before sends a good request, with a threshold of
    two. -/
theorem verdicts_agree_exact_first :
    (false = true ↔ isIpaddrBlacklisted 2 (StdMap.emplace ∅ knownAddr 1) knownAddr = false)
      ↔ (Finmap.lookup knownAddr (∅ : StatsList)).getD 0 + delta true ≠ 2 :=
  verdicts_agree_exact 2 ∅ [] knownAddr true false (StdMap.emplace ∅ knownAddr 1)
    [(knownAddr, 1)] (by decide)

/-- With a threshold of one, the update says that the client is not good and
    the look-up that it is not blacklisted. -/
theorem verdicts_disagree :
    ¬ ∀ threshold start (s : Ledger Unit) p ip good ret stats' table',
      (system Unit start).Reachable s → s.process = some p →
      updateIpAddrStats threshold p.statsList s.table ip good = some (ret, stats', table') →
      (ret = true ↔ isIpaddrBlacklisted threshold stats' ip = false) := by
  intro hall
  -- A server that has just come up, with no scores.
  let start : StartTable := ⟨[], List.nodup_nil, fun _ h => absurd h List.not_mem_nil,
    fun _ h => absurd h List.not_mem_nil⟩
  have hdown : (system Unit start).Reachable ⟨[], none, []⟩ := System.Reachable.init _ rfl
  have hup : (system Unit start).Reachable ⟨[], some ⟨∅, none, 0, fun _ => .idle⟩, []⟩ :=
    System.Reachable.step _ .restart _ hdown rfl
  have hagree := hall 1 start _ _ knownAddr true false (StdMap.emplace ∅ knownAddr 1)
    [(knownAddr, 1)] hup rfl (by decide)
  exact absurd (hagree.mpr (by decide)) (by decide)

end Blacklist

end HttpFileSharing
