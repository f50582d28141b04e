import AlertUpgrade.Run

/-!
# What `Upgrade` may write

`Framed s s'` lists the records a run of `Upgrade` from `s` may leave changed in `s'`: the rules and groups derived
from the listed legacy alerts, `cattle-alerting` (set deleted, and only with both migrations complete), and the system
project's app; none of them but the app when the current version already runs the new alerting. Every run, whatever
it returns and wherever it stops, leaves a `Framed` store (`upgrade_frame`).
-/

namespace AlertUpgrade

open Prog

/-- The records a run of `Upgrade` from `s` may have changed in `s'`. -/
structure Framed (E : AlertService) (order : MapOrder) (currentVersion : String) (s s' : Store) : Prop where
  readOnly : s'.readOnly = s.readOnly
  clusterRule : ∀ κ, (s'.tables .clusterAlertRule).get κ ≠ (s.tables .clusterAlertRule).get κ →
    stringsContains currentVersion monitoringMarker = false ∧
      ∃ v ∈ listedClusterAlerts E.clusterName s, κ = (E.clusterName, "migrate-" ++ v.meta.name)
  clusterGroup : ∀ κ, (s'.tables .clusterAlertGroup).get κ ≠ (s.tables .clusterAlertGroup).get κ →
    stringsContains currentVersion monitoringMarker = false ∧
      ∃ v ∈ listedClusterAlerts E.clusterName s, κ = (E.clusterName, "migrate-group-" ++ v.meta.name)
  projectRule : ∀ κ, (s'.tables .projectAlertRule).get κ ≠ (s.tables .projectAlertRule).get κ →
    stringsContains currentVersion monitoringMarker = false ∧
      ∃ v ∈ s.readOnly.projectAlerts, objectInCluster E.clusterName v = true ∧
        κ = ((refParse v.spec.projectName).2, "migrate-rule-" ++ v.meta.name)
  projectGroup : ∀ κ, (s'.tables .projectAlertGroup).get κ ≠ (s.tables .projectAlertGroup).get κ →
    stringsContains currentVersion monitoringMarker = false ∧
      ∃ v ∈ s.readOnly.projectAlerts, objectInCluster E.clusterName v = true ∧
        κ = ((refParse v.spec.projectName).2, "migrate-group-" ++ v.meta.name)
  namespaces : ∀ n, s'.namespaces n ≠ s.namespaces n →
    stringsContains currentVersion monitoringMarker = false ∧ n = "cattle-alerting" ∧ s'.namespaces n = false ∧
      ∀ k, k ≠ .app → s'.tables k = (migrated E order s).tables k
  app : ∀ κ, (s'.tables .app).get κ ≠ (s.tables .app).get κ →
    ∃ p, systemProject E s = some p ∧ κ = (p.name, E.appName)

section Frame

variable {E : AlertService} {order : MapOrder} {currentVersion : String} {s s' : Store}

/-- A store a run of the migration block can leave changes only migration records, at keys of listed alerts. -/
theorem Framed.of_migReach (hm : stringsContains currentVersion monitoringMarker = false)
    (h : MigReach E order s s')
    (hn : ∀ n, s'.namespaces n ≠ s.namespaces n → n = "cattle-alerting" ∧ s'.namespaces n = false ∧
      ∀ k, k ≠ .app → s'.tables k = (migrated E order s).tables k)
    (ha : ∀ κ, (s'.tables .app).get κ ≠ (s.tables .app).get κ →
      ∃ p, systemProject E s = some p ∧ κ = (p.name, E.appName)) :
    Framed E order currentVersion s s' where
  readOnly := h.readOnly
  clusterRule κ hne := by
    obtain ⟨w, hw, rfl⟩ := (h.clusterRule κ).written hne
    exact ⟨hm, w, hw, rfl⟩
  clusterGroup κ hne := by
    obtain ⟨w, hw, rfl⟩ := (h.clusterGroup κ).written hne
    exact ⟨hm, w, hw, rfl⟩
  projectRule κ hne := by
    obtain ⟨w, hw, rfl⟩ := (h.projectRule κ).written hne
    exact ⟨hm, w, (mem_projectPlan.1 hw).1, (mem_projectPlan.1 hw).2, rfl⟩
  projectGroup κ hne := by
    obtain ⟨w, hw, rfl⟩ := (h.projectGroup κ).written hne
    exact ⟨hm, w, (mem_projectPlan.1 hw).1, (mem_projectPlan.1 hw).2, rfl⟩
  namespaces n hne := ⟨hm, hn n hne⟩
  app := ha

/-- A store that differs from `s` in its app table only. -/
theorem Framed.of_apps (hr : s'.readOnly = s.readOnly) (hn : s'.namespaces = s.namespaces)
    (ht : ∀ k, k ≠ .app → s'.tables k = s.tables k)
    (ha : ∀ κ, (s'.tables .app).get κ ≠ (s.tables .app).get κ →
      ∃ p, systemProject E s = some p ∧ κ = (p.name, E.appName)) :
    Framed E order currentVersion s s' where
  readOnly := hr
  clusterRule κ hne := absurd (by rw [ht _ (by decide)]) hne
  clusterGroup κ hne := absurd (by rw [ht _ (by decide)]) hne
  projectRule κ hne := absurd (by rw [ht _ (by decide)]) hne
  projectGroup κ hne := absurd (by rw [ht _ (by decide)]) hne
  namespaces n hne := absurd (by rw [hn]) hne
  app := ha

/-- The app update writes at the system project's app key only. -/
theorem AppWrite.changed {cat ext : String} {t : Store} {a r : App} (hw : AppWrite E cat ext t a r)
    (hr : t.readOnly = s.readOnly) (ha : t.tables .app = s.tables .app) (κ : Key)
    (hne : ((t.setTable .app ((t.tables .app).insert r)).tables .app).get κ ≠ (s.tables .app).get κ) :
    ∃ p, systemProject E s = some p ∧ κ = (p.name, E.appName) := by
  obtain ⟨p, hp, hkey⟩ := hw.key
  refine ⟨p, by rw [← hp, systemProject, systemProject, hr], ?_⟩
  rw [Store.setTable_tables_self, Table.insert_get, ← ha] at hne
  split at hne
  · next h => exact h.trans hkey
  · exact absurd rfl hne

/-- A store with the namespaces of the migrated store, and its tables but the app's, differs from `s` only in
`cattle-alerting`, set deleted. -/
theorem namespaces_of_migrated {t : Store} (htn : t.namespaces = (migrated E order s).namespaces)
    (htk : ∀ k, k ≠ .app → t.tables k = (migrated E order s).tables k) (n : String)
    (hne : t.namespaces n ≠ s.namespaces n) :
    n = "cattle-alerting" ∧ t.namespaces n = false ∧ ∀ k, k ≠ .app → t.tables k = (migrated E order s).tables k := by
  rw [htn, migrated_namespaces, Store.deleteNamespace_namespaces] at hne ⊢
  split at hne
  · next h => exact ⟨h, by simp [h], htk⟩
  · exact absurd rfl hne

/-- Every run of `Upgrade`, whatever it returns and wherever it stops, changes only the records `Framed` allows. -/
theorem upgrade_frame (E : AlertService) (order : MapOrder) (currentVersion : String) (s : Store) :
    wp (upgrade E order currentVersion) (fun _ s' _ => Framed E order currentVersion s s') s := by
  refine wp_mono (upgrade_wp E order currentVersion s) ?_
  rintro out s' cs (⟨rfl, -⟩ | ⟨cat, ext, ver, -, ⟨hm, hreach, hn, ha, -⟩ | ⟨-, hend⟩⟩)
  · exact Framed.of_apps rfl rfl (fun _ _ => rfl) fun _ h => absurd rfl h
  · exact Framed.of_migReach hm hreach (fun n h => absurd (congrFun hn n) h) fun κ h => absurd (by rw [ha]) h
  · unfold afterMigration at hend
    cases hm : stringsContains currentVersion monitoringMarker
    · simp only [hm, Bool.false_eq_true, ite_false] at hend
      rcases hend with rfl | ⟨a, r, hw, -, rfl⟩
      · exact Framed.of_migReach hm migReach_migrated (namespaces_of_migrated rfl fun _ _ => rfl)
          fun κ h => absurd (by rw [migrated_app]) h
      · exact Framed.of_migReach hm (migReach_setApp migReach_migrated _)
          (namespaces_of_migrated rfl fun k hk => Store.setTable_tables_of_ne _ _ hk)
          (hw.changed (migrated_readOnly _ _ _) (migrated_app _ _ _))
    · simp only [hm, ite_true] at hend
      rcases hend with rfl | ⟨a, r, hw, -, rfl⟩
      · exact Framed.of_apps rfl rfl (fun _ _ => rfl) fun _ h => absurd rfl h
      · exact Framed.of_apps rfl rfl (fun k hk => Store.setTable_tables_of_ne _ _ hk) (hw.changed rfl rfl)

end Frame

end AlertUpgrade
