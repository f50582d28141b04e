import AlertUpgrade.Run

/-!
# Running `Upgrade` again

A run of `Upgrade` can stop at any call: a failed call returns its error, after the writes made before it. The
store it leaves is one the clean run from the start passes through, up to writes of the clean run's own values, so
that the clean run from it ends as the clean run from the start does (`upgrade_retry`):

* the migration block from a store it left reaches `migrated` again, with the app table untouched
  (`afterMigration_eq_of_migReach`, built on `migrated_of_migReach`);
* the app block after its own write finds the app current (`upgradeApp_exec_written`) and, after its clean run, has
  nothing to write (`not_appWrite_exec`).
-/

namespace AlertUpgrade

open Prog

section Retry

variable {E : AlertService} {order : MapOrder} {currentVersion : String} {s s' : Store}

/-- A store a run of the migration block left migrates to the completed block's store, with its own apps. -/
theorem afterMigration_eq_of_migReach (hm : stringsContains currentVersion monitoringMarker = false)
    (h : MigReach E order s s') :
    afterMigration E order currentVersion s' =
      (afterMigration E order currentVersion s).setTable .app (s'.tables .app) := by
  simp only [afterMigration, hm, Bool.false_eq_true, ite_false]
  exact migrated_of_migReach h

/-- The migration block has nothing left to do after it completed, whatever apps were written since. -/
theorem afterMigration_setApp (X : Table Kind.app.Obj Kind.app.key) :
    afterMigration E order currentVersion ((afterMigration E order currentVersion s).setTable .app X) =
      (afterMigration E order currentVersion s).setTable .app X := by
  cases hm : stringsContains currentVersion monitoringMarker
  · have h : MigReach E order s ((afterMigration E order currentVersion s).setTable .app X) := by
      simp only [afterMigration, hm, Bool.false_eq_true, ite_false]
      exact migReach_setApp migReach_migrated X
    rw [afterMigration_eq_of_migReach hm h, Store.setTable_tables_self]
  · simp only [afterMigration, hm, ite_true]

theorem afterMigration_afterMigration :
    afterMigration E order currentVersion (afterMigration E order currentVersion s) =
      afterMigration E order currentVersion s := by
  have h := @afterMigration_setApp E order currentVersion s
    ((afterMigration E order currentVersion s).tables .app)
  rwa [Store.setTable_self] at h

/-- The clean run from the store any run of `Upgrade` from `s` leaves ends as the clean run from `s`. -/
theorem upgrade_exec_of_end {out : Outcome (Except String String)} {cs : List Call}
    (h : UpgradeEnd E order currentVersion s out s' cs) :
    (upgrade E order currentVersion).exec s' = (upgrade E order currentVersion).exec s := by
  rcases h with ⟨rfl, -⟩ | ⟨cat, ext, ver, ht, ⟨hm, hr, -, ha, -⟩ | ⟨-, hend⟩⟩
  · rfl
  · rw [upgrade_exec, upgrade_exec, upgradeTarget_exec_congr E hr.readOnly, ht,
      afterMigration_eq_of_migReach hm hr, ha, ← afterMigration_app, Store.setTable_self]
  · rcases hend with rfl | ⟨a, r, hw, -, rfl⟩
    · rw [upgrade_exec, upgrade_exec, upgradeTarget_exec_congr E afterMigration_readOnly, ht,
        afterMigration_afterMigration]
    · rw [upgrade_exec, upgrade_exec,
        upgradeTarget_exec_congr E ((Store.setTable_readOnly _ _ _).trans afterMigration_readOnly), ht,
        afterMigration_setApp]
      exact (upgradeApp_exec_written hw).trans (upgradeApp_exec_of_write hw).symm

/-- The migration block finds the store the clean run of `Upgrade` leaves migrated. -/
theorem afterMigration_upgradeApp {cat ext ver : String} :
    afterMigration E order currentVersion ((upgradeApp E cat ext ver).exec (afterMigration E order currentVersion s)).2 =
      ((upgradeApp E cat ext ver).exec (afterMigration E order currentVersion s)).2 := by
  rcases @upgradeApp_exec_store E cat ext ver (afterMigration E order currentVersion s) with h | ⟨a, r, -, h⟩ <;>
    rw [h]
  · exact afterMigration_afterMigration
  · exact afterMigration_setApp _

/-- A clean run of `Upgrade` after a clean run makes no app update. -/
theorem upgrade_again_noAppUpdate :
    ∀ c ∈ ((upgrade E order currentVersion).run [] ((upgrade E order currentVersion).exec s).2).calls,
      NoAppUpdate c := by
  have hend := upgrade_wp E order currentVersion s []
  have hr : ((upgrade E order currentVersion).exec s).2.readOnly = s.readOnly := hend.readOnly
  rcases upgrade_wp E order currentVersion ((upgrade E order currentVersion).exec s).2 [] with
    ⟨-, hcs⟩ | ⟨cat, ext, ver, ht, ⟨-, -, -, -, hcs⟩ | ⟨hcalls, -⟩⟩
  · exact hcs
  · exact hcs
  · rw [upgradeTarget_exec_congr E hr] at ht
    have hs : ((upgrade E order currentVersion).exec s).2 =
        ((upgradeApp E cat ext ver).exec (afterMigration E order currentVersion s)).2 := by
      rw [upgrade_exec, ht]
    refine noAppUpdate_of_writes hcalls.write fun a r => ?_
    rw [hs, afterMigration_upgradeApp]
    exact not_appWrite_exec

end Retry

end AlertUpgrade
