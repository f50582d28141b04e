import AlertUpgrade.Run

/-!
# The app write

The `//upgrade old app` block updates the system project's app only behind the `reflect.DeepEqual` guard and the
readiness gate. Over every run of `Upgrade` (`upgrade_app_guarded`): the guard on the deep copy is the comparison of
the two fields it sets (`newApp_eq_self_iff`); there is at most one `apps.Update`, and each writes an `AppWrite` of
the clean run's target over an app of the starting store, readiness included; a run that returns an error leaves the
app table as it was; and with the app current or missing, the clean run returns the new version with no update.

The deep copy is written through: `newApp.Spec.Answers["operator.enabled"] = "false"` on an app whose answers map is
nil panics, and the clean run of `Upgrade` ends there for every such store (`upgrade_panics_on_nil_answers`).
-/

namespace AlertUpgrade

open Prog

section Guard

variable {E : AlertService} {order : MapOrder} {currentVersion : String} {s : Store}

theorem filter_isAppUpdate_eq_nil {cs : List Call} (h : ∀ c ∈ cs, NoAppUpdate c) : cs.filter Call.isAppUpdate = [] :=
  List.filter_eq_nil_iff.2 fun c hc => by rw [h c hc]; exact Bool.false_ne_true

theorem update_not_mem {cs : List Call} (h : ∀ c ∈ cs, NoAppUpdate c) (r : App) : Call.update .app r ∉ cs :=
  fun hr => absurd (h _ hr) (by simp [NoAppUpdate, Call.isAppUpdate])

/-- Every run of `Upgrade` makes at most one app update, each an `AppWrite` over an app of `s`, and returns an error
only with the app table untouched. -/
theorem upgrade_app_wp (E : AlertService) (order : MapOrder) (currentVersion : String) (s : Store) :
    wp (upgrade E order currentVersion) (fun out s' cs => (cs.filter Call.isAppUpdate).length ≤ 1 ∧
      (∀ r, Call.update .app r ∈ cs → ∃ cat ext ver a,
        ((upgradeTarget E).exec s).1 = .returned (.ok (cat, ext, ver)) ∧ AppWrite E cat ext s a r) ∧
      ∀ e, out = .returned (.error e) → s'.tables .app = s.tables .app) s := by
  refine wp_mono (upgrade_wp E order currentVersion s) ?_
  rintro out s' cs (⟨rfl, hcs⟩ | ⟨cat, ext, ver, ht, ⟨-, -, -, ha, hcs⟩ | ⟨hcalls, hend⟩⟩)
  · exact ⟨by simp [filter_isAppUpdate_eq_nil hcs], fun r hr => absurd hr (update_not_mem hcs r), fun _ _ => rfl⟩
  · exact ⟨by simp [filter_isAppUpdate_eq_nil hcs], fun r hr => absurd hr (update_not_mem hcs r), fun _ _ => ha⟩
  · refine ⟨hcalls.once, fun r hr => ?_, fun e he => ?_⟩
    · obtain ⟨a, hw⟩ := hcalls.write r hr
      exact ⟨cat, ext, ver, a, ht, (AppWrite.congr afterMigration_readOnly afterMigration_app).1 hw⟩
    · rcases hend with rfl | ⟨a, r, -, hout, -⟩
      · exact afterMigration_app
      · cases he.symm.trans hout

/-- No app needs a write where the system project's app is missing or already current. -/
theorem not_appWrite_of_current {cat ext : String} {p : Project} (hp : systemProject E s = some p)
    (ha : (s.tables .app).get (p.name, E.appName) = none ∨ ∃ a, (s.tables .app).get (p.name, E.appName) = some a ∧
      a.spec.externalID = ext ∧ a.spec.answers.bind (·.lookup "operator.enabled") = some "false")
    (a r : App) : ¬ AppWrite E cat ext s a r := fun hw => by
  obtain ⟨q, hq, hget⟩ := hw.fetched
  rw [hp, Option.some.injEq] at hq
  subst hq
  rcases ha with ha | ⟨a', ha, hext, hop⟩
  · rw [ha] at hget
    cases hget
  · rw [ha, Option.some.injEq] at hget
    subst hget
    rcases hw.needed with h | h <;> contradiction

/-- With every call answered and the app missing or current, `Upgrade` returns the new version and writes no app. -/
theorem upgrade_exec_current {cat ext ver : String} {p : Project}
    (ht : ((upgradeTarget E).exec s).1 = .returned (.ok (cat, ext, ver))) (hp : systemProject E s = some p)
    (ha : (s.tables .app).get (p.name, E.appName) = none ∨ ∃ a, (s.tables .app).get (p.name, E.appName) = some a ∧
      a.spec.externalID = ext ∧ a.spec.answers.bind (·.lookup "operator.enabled") = some "false") :
    (upgrade E order currentVersion).exec s = (.returned (.ok ver), afterMigration E order currentVersion s) := by
  rw [upgrade_exec, ht]
  exact upgradeApp_exec_current (by rwa [systemProject, afterMigration_readOnly]) (by rwa [afterMigration_app])

/-- The app write of `Upgrade` is guarded: the deep-equality guard is the two-field comparison; every run updates the
app at most once, only where it needs the new values, with the cluster and the catalog ready, writing the fetched app
with the two fields set, and a run that returns an error leaves the apps as they were; with the app current or
missing, the clean run returns the new version and makes no update. -/
theorem upgrade_app_guarded (E : AlertService) (order : MapOrder) (currentVersion : String) (s : Store) :
    (∀ ext a, newApp ext a = some a ↔
      a.spec.externalID = ext ∧ a.spec.answers.bind (·.lookup "operator.enabled") = some "false") ∧
    wp (upgrade E order currentVersion) (fun out s' cs => (cs.filter Call.isAppUpdate).length ≤ 1 ∧
      (∀ r, Call.update .app r ∈ cs → ∃ cat ext ver a,
        ((upgradeTarget E).exec s).1 = .returned (.ok (cat, ext, ver)) ∧ AppWrite E cat ext s a r) ∧
      ∀ e, out = .returned (.error e) → s'.tables .app = s.tables .app) s ∧
    ∀ cat ext ver p, ((upgradeTarget E).exec s).1 = .returned (.ok (cat, ext, ver)) → systemProject E s = some p →
      ((s.tables .app).get (p.name, E.appName) = none ∨ ∃ a, (s.tables .app).get (p.name, E.appName) = some a ∧
        a.spec.externalID = ext ∧ a.spec.answers.bind (·.lookup "operator.enabled") = some "false") →
      (upgrade E order currentVersion).exec s = (.returned (.ok ver), afterMigration E order currentVersion s) ∧
      ∀ c ∈ ((upgrade E order currentVersion).run [] s).calls, c.isAppUpdate = false := by
  refine ⟨newApp_eq_self_iff, upgrade_app_wp E order currentVersion s, fun cat ext ver p ht hp ha =>
    ⟨upgrade_exec_current ht hp ha, noAppUpdate_of_writes (fun r hr => ?_) fun _ _ h => h⟩⟩
  obtain ⟨cat', ext', ver', a, ht', hw⟩ := (upgrade_app_wp E order currentVersion s []).2.1 r hr
  rw [ht] at ht'
  cases ht'
  exact absurd hw (not_appWrite_of_current hp ha a r)

/-! ## Apps with no answers -/

/-- With every call answered, `Upgrade` panics on every store whose system project's app has a nil answers map, once
the target is resolved: the migration runs, then `newApp.Spec.Answers["operator.enabled"] = "false"` writes into the
nil map. -/
theorem upgrade_panics_on_nil_answers (E : AlertService) (order : MapOrder) (currentVersion : String) (s : Store)
    {cat ext ver : String} {p : Project} {a : App}
    (ht : ((upgradeTarget E).exec s).1 = .returned (.ok (cat, ext, ver))) (hp : systemProject E s = some p)
    (ha : (s.tables .app).get (p.name, E.appName) = some a) (hnil : a.spec.answers = none) :
    (upgrade E order currentVersion).exec s = (.panicked assignmentToNilMap, afterMigration E order currentVersion s) := by
  rw [upgrade_exec, ht]
  exact upgradeApp_exec_nilAnswers (by rwa [systemProject, afterMigration_readOnly]) (by rwa [afterMigration_app]) hnil

/-- The alerting service of a cluster `c-1` whose system catalog template resolves to version `0.0.2`. -/
def nilAnswersService : AlertService where
  clusterName := "c-1"
  systemMonitoringCatalogID := "catalog://?catalog=system-library&template=rancher-monitoring&version=0.0.1"
  splitExternalID _ := .ok ("cattle-global-data", "system-library", "", "rancher-monitoring", "0.0.1")
  parseExternalID _ := .ok ("system-library-rancher-monitoring-0.0.2", "cattle-global-data")
  appName := "cluster-alerting"
  systemProjectLabel := [("authz.management.cattle.io/system-project", "true")]

/-- The alerting app of the system project `p-sys`, created with no answers. -/
def nilAnswersApp : App :=
  ⟨⟨"cluster-alerting", "p-sys", [], []⟩,
    ⟨"p-sys", "cattle-prometheus", "catalog://?catalog=system-library&template=rancher-monitoring&version=0.0.1", none⟩⟩

/-- A store with the system project `p-sys`, its app `nilAnswersApp`, the template, and nothing else. -/
def nilAnswersStore : Store :=
  Store.setTable
    { readOnly :=
        { clusterAlerts := [], projectAlerts := [],
          projects := [⟨"p-sys", [("authz.management.cattle.io/system-project", "true")]⟩],
          clusters := fun _ => none, catalogs := fun _ => none, templates := fun _ => some ⟨"0.0.2"⟩,
          clusterAlerts_nodup := List.nodup_nil, projectAlerts_nodup := List.nodup_nil }
      tables := fun _ => Table.empty
      namespaces := fun _ => false }
    .app (Table.empty.insert nilAnswersApp)

theorem nilAnswersStore_panics :
    ((upgradeTarget nilAnswersService).exec nilAnswersStore).1 = .returned (.ok ("system-library",
      "catalog://?catalog=system-library&template=rancher-monitoring&version=0.0.2",
      "system-library-rancher-monitoring-0.0.2")) ∧
    systemProject nilAnswersService nilAnswersStore = some ⟨"p-sys", [("authz.management.cattle.io/system-project", "true")]⟩ ∧
    (nilAnswersStore.tables .app).get ("p-sys", "cluster-alerting") = some nilAnswersApp ∧
    nilAnswersApp.spec.answers = none ∧
    (upgrade nilAnswersService MapOrder.listing "").exec nilAnswersStore =
      (.panicked assignmentToNilMap, afterMigration nilAnswersService MapOrder.listing "" nilAnswersStore) :=
  ⟨rfl, rfl, rfl, rfl,
    upgrade_panics_on_nil_answers nilAnswersService MapOrder.listing "" nilAnswersStore rfl rfl rfl rfl⟩

end Guard

end AlertUpgrade
