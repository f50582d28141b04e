import AlertUpgrade.Block

/-!
# The app block

The `//upgrade old app` block of `Upgrade` fetches the system project's alerting app, builds `newApp` (the app with
the new external ID and `operator.enabled = false`), and writes it only when it differs from the fetched app and the
cluster and the system catalog are ready.

* The `reflect.DeepEqual` guard is the two-field comparison (`newApp_eq_self_iff`), and `newApp` of an updated app
  is that app (`newApp_newApp`).
* `AppWrite` collects what holds when the block writes: the fetched app, the guard, the record written and the
  readiness gate. Every run ends in `AppEnd` (`upgradeApp_wp`): at most one app update, only of an `AppWrite`; the
  store unchanged unless the update succeeded.
* Run with every call answered, the block writes exactly when an `AppWrite` holds (`upgradeApp_exec_of_write`,
  `upgradeApp_exec_store`), returns the new version without a write when the app is missing or current
  (`upgradeApp_exec_current`), and once it has written, it writes nothing more (`upgradeApp_exec_written`,
  `not_appWrite_exec`). Where it returns a version, the app it leaves is the one `newApp` builds
  (`upgradeApp_exec_app`).
-/

namespace AlertUpgrade

open Prog

/-! ## `newApp` -/

theorem insert_eq_self_iff {m : StringMap} {k v : String} : m.insert k v = m ↔ m.lookup k = some v := by
  constructor
  · intro h; rw [← h, Finmap.lookup_insert]
  · intro h
    refine Finmap.ext_lookup fun x => ?_
    by_cases hx : x = k
    · subst hx; rw [Finmap.lookup_insert, h]
    · rw [Finmap.lookup_insert_of_ne _ hx]

/-- The `DeepEqual` guard: the updated copy equals the fetched app exactly when the app already has the new external
ID and `operator.enabled` set to `false`. -/
theorem newApp_eq_self_iff (newExternalID : String) (a : App) :
    newApp newExternalID a = some a ↔
      a.spec.externalID = newExternalID ∧ a.spec.answers.bind (·.lookup "operator.enabled") = some "false" := by
  rcases a with ⟨meta, projectName, targetNamespace, externalID, _ | answers⟩
  · simp [newApp]
  · simp only [newApp, Option.map_some', Option.some.injEq, App.mk.injEq, AppSpec.mk.injEq, true_and,
      insert_eq_self_iff, Option.some_bind, eq_comm (a := newExternalID)]

theorem newApp_newApp {newExternalID : String} {a r : App} (h : newApp newExternalID a = some r) :
    newApp newExternalID r = some r := by
  rcases a with ⟨meta, projectName, targetNamespace, externalID, _ | answers⟩
  · simp [newApp] at h
  · simp only [newApp, Option.map_some', Option.some.injEq] at h
    subst h
    simp [newApp, Finmap.insert_insert]

/-- The app `newApp` builds has the new external ID and `operator.enabled = false`. -/
theorem newApp_current {newExternalID : String} {a r : App} (h : newApp newExternalID a = some r) :
    r.spec.externalID = newExternalID ∧ r.spec.answers.bind (·.lookup "operator.enabled") = some "false" :=
  (newApp_eq_self_iff newExternalID r).1 (newApp_newApp h)


/-- The first project the system-project label selects: `defaultSystemProjects[0]`. -/
def systemProject (E : AlertService) (s : Store) : Option Project :=
  (s.readOnly.projects.filter (labelsMatch E.systemProjectLabel ·.labels)).head?

/-- An `apps.Update` call. -/
def Call.isAppUpdate : Call → Bool
  | .update .app _ => true
  | _ => false

/-- `Upgrade` may write `r` over the app `a`: `a` is the system project's app, it lacks the new external ID or
`operator.enabled = false`, `r` is `a` with both set, and the cluster and the system catalog are ready. -/
structure AppWrite (E : AlertService) (systemCatalogName newExternalID : String) (s : Store) (a r : App) : Prop where
  fetched : ∃ p, systemProject E s = some p ∧ (s.tables .app).get (p.name, E.appName) = some a
  needed : a.spec.externalID ≠ newExternalID ∨ a.spec.answers.bind (·.lookup "operator.enabled") ≠ some "false"
  written : ∃ answers, a.spec.answers = some answers ∧
    r = { a with spec := { a.spec with externalID := newExternalID,
                                       answers := some (answers.insert "operator.enabled" "false") } }
  clusterReady : ∃ cluster, s.readOnly.clusters E.clusterName = some cluster ∧ cluster.ready = true
  catalogReady : ∃ catalog, s.readOnly.catalogs systemCatalogName = some catalog ∧
    catalog.upgraded = true ∧ catalog.refreshed = true ∧ catalog.diskCached = true

/-- The app updates among the calls of a run: at most one, and only of an `AppWrite`. -/
structure AppCalls (E : AlertService) (systemCatalogName newExternalID : String) (s : Store) (cs : List Call) :
    Prop where
  write : ∀ r, Call.update .app r ∈ cs → ∃ a, AppWrite E systemCatalogName newExternalID s a r
  once : (cs.filter Call.isAppUpdate).length ≤ 1

theorem appCalls_of_forall {E : AlertService} {cat ext : String} {s : Store} {cs : List Call}
    (h : ∀ c ∈ cs, c.isAppUpdate = false) : AppCalls E cat ext s cs where
  write r hr := absurd (h _ hr) (by simp [Call.isAppUpdate])
  once := by rw [List.filter_eq_nil_iff.2 fun c hc => by simp [h c hc]]; simp

theorem appWrite_of_newApp {E : AlertService} {cat ext : String} {s : Store} {p : Project} {a r : App}
    (hp : systemProject E s = some p) (ha : (s.tables .app).get (p.name, E.appName) = some a)
    (hn : newApp ext a = some r) (hra : r ≠ a)
    {cluster : Cluster} (hc : s.readOnly.clusters E.clusterName = some cluster) (hcr : cluster.ready = true)
    {catalog : Catalog} (hk : s.readOnly.catalogs cat = some catalog)
    (hkr : catalog.upgraded = true ∧ catalog.refreshed = true ∧ catalog.diskCached = true) :
    AppWrite E cat ext s a r where
  fetched := ⟨p, hp, ha⟩
  needed := by
    rw [← not_and_or, ← newApp_eq_self_iff]
    exact fun h => hra (Option.some.inj (hn.symm.trans h))
  written := by
    rcases a with ⟨meta, projectName, targetNamespace, externalID, _ | answers⟩
    · simp [newApp] at hn
    · exact ⟨answers, rfl, (Option.some.inj hn).symm⟩
  clusterReady := ⟨cluster, hc, hcr⟩
  catalogReady := ⟨catalog, hk, hkr⟩

/-- How a run of the app block from `t` ends: its app updates form an `AppCalls`, and it leaves `t`, or `t` with the
new app written by an update that succeeded. -/
def AppEnd (E : AlertService) (cat ext ver : String) (t : Store) (out : Outcome (Except String String)) (s' : Store)
    (cs : List Call) : Prop :=
  AppCalls E cat ext t cs ∧
    (s' = t ∨ ∃ a r, AppWrite E cat ext t a r ∧ out = .returned (.ok ver) ∧ s' = t.setTable .app ((t.tables .app).insert r))

theorem appEnd_stay {E : AlertService} {cat ext ver : String} {t : Store} {out : Outcome (Except String String)}
    {cs : List Call} (h : cs.all (fun c => !c.isAppUpdate) = true) : AppEnd E cat ext ver t out t cs :=
  ⟨appCalls_of_forall fun c hc => by simpa using List.all_eq_true.1 h c hc, .inl rfl⟩

theorem upgradeApp_wp (E : AlertService) (cat ext ver : String) (t : Store) :
    wp (upgradeApp E cat ext ver) (AppEnd E cat ext ver t) t := by
  unfold upgradeApp
  rw [lift_bind, wp_call_iff]
  refine ⟨fun m => (wp_pure _).2 (appEnd_stay rfl), ?_⟩
  simp only [Store.answer]
  cases hp : t.readOnly.projects.filter (labelsMatch E.systemProjectLabel ·.labels) with
  | nil => exact (wp_pure _).2 (appEnd_stay rfl)
  | cons p ps =>
    simp only [List.map_cons, lift_bind]
    rw [wp_call_iff]
    refine ⟨fun m => (wp_pure _).2 (appEnd_stay rfl), ?_⟩
    simp only [Store.answer, Table.getE]
    cases ha : (t.tables .app).get (p.name, E.appName) with
    | none => exact (wp_pure _).2 (appEnd_stay rfl)
    | some a =>
      simp only []
      cases hn : newApp ext a with
      | none => exact (wp_panic _).2 (appEnd_stay rfl)
      | some r =>
        by_cases hra : r = a
        · simp only [hra, if_true, ret_eq_pure, wp_pure]
          exact appEnd_stay rfl
        simp only [hra, ite_false, lift_bind]
        rw [wp_call_iff]
        refine ⟨fun m => (wp_pure _).2 (appEnd_stay rfl), ?_⟩
        simp only [Store.answer, lookupE]
        cases hc : t.readOnly.clusters E.clusterName with
        | none => exact (wp_pure _).2 (appEnd_stay rfl)
        | some cluster =>
          cases hcr : cluster.ready
          · simp only [hcr, Bool.not_false, ite_true, ret_eq_pure, wp_pure]
            exact appEnd_stay rfl
          simp only [hcr, Bool.not_true, Bool.false_eq_true, ite_false, lift_bind]
          rw [wp_call_iff]
          refine ⟨fun m => (wp_pure _).2 (appEnd_stay rfl), ?_⟩
          simp only [Store.answer, lookupE]
          cases hk : t.readOnly.catalogs cat with
          | none => exact (wp_pure _).2 (appEnd_stay rfl)
          | some catalog =>
            cases hb : (!catalog.upgraded || !catalog.refreshed || !catalog.diskCached)
            swap
            · simp only [hb, ite_true, ret_eq_pure, wp_pure]
              exact appEnd_stay rfl
            have hkr : catalog.upgraded = true ∧ catalog.refreshed = true ∧ catalog.diskCached = true := by
              simpa [Bool.or_eq_false_iff, and_assoc] using hb
            have hw : AppWrite E cat ext t a r :=
              appWrite_of_newApp (by simp [systemProject, hp]) ha hn hra hc hcr hk hkr
            have hc5 : AppCalls E cat ext t [.projectsList E.systemProjectLabel, .get .app (p.name, E.appName),
                .clusterGet E.clusterName, .catalogGet cat, .update .app r] :=
              ⟨fun r' hr' => ⟨a, by simp at hr'; exact hr' ▸ hw⟩, le_rfl⟩
            have hkey : Kind.key .app r = (p.name, E.appName) := by
              obtain ⟨answers, -, rfl⟩ := hw.written
              have := (t.tables .app).get_key ha
              exact this
            simp only [hb, Bool.false_eq_true, ite_false, lift_bind]
            rw [wp_call_iff]
            refine ⟨fun m => (wp_pure _).2 ⟨hc5, .inl rfl⟩, ?_⟩
            simp only [Store.answer, hkey, ha, ret_eq_pure, wp_pure]
            exact ⟨hc5, .inr ⟨a, r, hw, rfl, rfl⟩⟩

/-! ## Every run -/

section Exec

variable {E : AlertService} {cat ext ver : String} {t : Store} {a r : App}

theorem AppWrite.congr {t' : Store} (hr : t'.readOnly = t.readOnly) (ha : t'.tables .app = t.tables .app) :
    AppWrite E cat ext t' a r ↔ AppWrite E cat ext t a r := by
  have hp : systemProject E t' = systemProject E t := by rw [systemProject, systemProject, hr]
  constructor <;> rintro ⟨h₁, h₂, h₃, h₄, h₅⟩
  · exact ⟨by rwa [← hp, ← ha], h₂, h₃, by rwa [← hr], by rwa [← hr]⟩
  · exact ⟨by rwa [hp, ha], h₂, h₃, by rwa [hr], by rwa [hr]⟩

theorem AppWrite.newApp_eq (hw : AppWrite E cat ext t a r) : newApp ext a = some r := by
  obtain ⟨answers, ha, rfl⟩ := hw.written
  rcases a with ⟨meta, projectName, targetNamespace, externalID, answers'⟩
  cases ha
  rfl

theorem AppWrite.ne (hw : AppWrite E cat ext t a r) : r ≠ a := fun h => by
  have := (newApp_eq_self_iff ext a).1 (h ▸ hw.newApp_eq)
  rcases hw.needed with h' | h' <;> simp_all

theorem AppWrite.key (hw : AppWrite E cat ext t a r) :
    ∃ p, systemProject E t = some p ∧ Kind.key .app r = (p.name, E.appName) := by
  obtain ⟨p, hp, ha⟩ := hw.fetched
  obtain ⟨answers, -, rfl⟩ := hw.written
  have := (t.tables .app).get_key ha
  exact ⟨p, hp, this⟩

theorem systemProject_eq_some {p : Project} (hp : systemProject E t = some p) :
    ∃ ps, t.readOnly.projects.filter (labelsMatch E.systemProjectLabel ·.labels) = p :: ps := by
  unfold systemProject at hp
  cases h : t.readOnly.projects.filter (labelsMatch E.systemProjectLabel ·.labels) with
  | nil => simp [h] at hp
  | cons q ps => simp only [h, List.head?_cons, Option.some.injEq] at hp; exact ⟨ps, hp ▸ rfl⟩

/-- With every call answered, the block writes the new app when an `AppWrite` holds. -/
theorem upgradeApp_exec_of_write (hw : AppWrite E cat ext t a r) :
    (upgradeApp E cat ext ver).exec t = (.returned (.ok ver), t.setTable .app ((t.tables .app).insert r)) := by
  obtain ⟨p, hp, ha⟩ := hw.fetched
  obtain ⟨ps, hps⟩ := systemProject_eq_some hp
  obtain ⟨cluster, hc, hcr⟩ := hw.clusterReady
  obtain ⟨catalog, hk, hk₁, hk₂, hk₃⟩ := hw.catalogReady
  obtain ⟨q, hq, hkey⟩ := hw.key
  rw [hp, Option.some.injEq] at hq
  subst hq
  simp [upgradeApp, Store.answer, hps, Table.getE, ha, hw.newApp_eq, hw.ne, lookupE, hc, hcr, hk, hk₁, hk₂, hk₃,
    hkey]

/-- Once the new app is written, the block finds it current and writes nothing. -/
theorem upgradeApp_exec_written (hw : AppWrite E cat ext t a r) :
    (upgradeApp E cat ext ver).exec (t.setTable .app ((t.tables .app).insert r)) =
      (.returned (.ok ver), t.setTable .app ((t.tables .app).insert r)) := by
  obtain ⟨p, hp, hkey⟩ := hw.key
  obtain ⟨ps, hps⟩ := systemProject_eq_some hp
  simp [upgradeApp, Store.answer, hps, Table.getE, hkey, newApp_newApp hw.newApp_eq]

/-- With every call answered, the block returns the new version and writes nothing when the app is missing or
already current. -/
theorem upgradeApp_exec_current {p : Project} (hp : systemProject E t = some p)
    (ha : (t.tables .app).get (p.name, E.appName) = none ∨ ∃ a, (t.tables .app).get (p.name, E.appName) = some a ∧
      a.spec.externalID = ext ∧ a.spec.answers.bind (·.lookup "operator.enabled") = some "false") :
    (upgradeApp E cat ext ver).exec t = (.returned (.ok ver), t) := by
  obtain ⟨ps, hps⟩ := systemProject_eq_some hp
  rcases ha with ha | ⟨a, ha, hcur⟩
  · simp [upgradeApp, Store.answer, hps, Table.getE, ha]
  · simp [upgradeApp, Store.answer, hps, Table.getE, ha, (newApp_eq_self_iff ext a).2 hcur]

/-- With every call answered, the block panics on an app with no answers: it writes `operator.enabled` into a nil
map. -/
theorem upgradeApp_exec_nilAnswers {p : Project} (hp : systemProject E t = some p)
    (ha : (t.tables .app).get (p.name, E.appName) = some a) (hnil : a.spec.answers = none) :
    (upgradeApp E cat ext ver).exec t = (.panicked assignmentToNilMap, t) := by
  obtain ⟨ps, hps⟩ := systemProject_eq_some hp
  simp [upgradeApp, Store.answer, hps, Table.getE, ha, newApp, hnil]

/-- With every call answered, the block leaves the store as it was or writes an `AppWrite`. -/
theorem upgradeApp_exec_store :
    ((upgradeApp E cat ext ver).exec t).2 = t ∨
      ∃ a r, AppWrite E cat ext t a r ∧ ((upgradeApp E cat ext ver).exec t).2 = t.setTable .app ((t.tables .app).insert r) := by
  rcases (upgradeApp_wp E cat ext ver t []).2 with h | ⟨a, r, hw, -, h⟩
  · exact .inl h
  · exact .inr ⟨a, r, hw, h⟩

/-- The object at the key of a written app is that app. -/
theorem AppWrite.get_written (hw : AppWrite E cat ext t a r) {p : Project} (hp : systemProject E t = some p) :
    ((t.setTable .app ((t.tables .app).insert r)).tables .app).get (p.name, E.appName) = some r := by
  obtain ⟨q, hq, hkey⟩ := hw.key
  rw [hp, Option.some.injEq] at hq
  subst hq
  simp [hkey]

/-- After the block has run with every call answered, no app needs a write. -/
theorem not_appWrite_exec : ¬ AppWrite E cat ext ((upgradeApp E cat ext ver).exec t).2 a r := by
  intro hw
  obtain ⟨p, hp, ha⟩ := hw.fetched
  rcases @upgradeApp_exec_store E cat ext ver t with h | ⟨a₀, r₀, hw₀, h⟩
  · rw [h] at hw hp ha
    have hr := congrArg (fun σ => (σ.tables .app).get (p.name, E.appName)) (h.symm.trans
      (congrArg Prod.snd (@upgradeApp_exec_of_write _ _ _ ver _ _ _ hw)))
    simp only [hw.get_written hp, ha, Option.some.injEq] at hr
    exact hw.ne hr.symm
  · have hp₀ : systemProject E t = some p := by
      rw [← hp, h, systemProject, systemProject, Store.setTable_readOnly]
    rw [h, hw₀.get_written hp₀, Option.some.injEq] at ha
    subst ha
    exact hw.ne (Option.some.inj (hw.newApp_eq.symm.trans (newApp_newApp hw₀.newApp_eq)))

/-- A run of the block with every call answered that returns a version leaves the system project's app, where there
is one, as `newApp` builds it: where the write is due, the run returns only after the gate and the update. -/
theorem upgradeApp_exec_app {p : Project} (hp : systemProject E t = some p)
    (ha : (t.tables .app).get (p.name, E.appName) = some a) {v : String}
    (hok : ((upgradeApp E cat ext ver).exec t).1 = .returned (.ok v)) :
    ∃ r, newApp ext a = some r ∧
      (((upgradeApp E cat ext ver).exec t).2.tables .app).get (p.name, E.appName) = some r := by
  cases hn : newApp ext a with
  | none => rw [upgradeApp_exec_nilAnswers hp ha (Option.map_eq_none'.1 hn)] at hok; cases hok
  | some r =>
    obtain ⟨ps, hps⟩ := systemProject_eq_some hp
    refine ⟨r, rfl, ?_⟩
    by_cases hra : r = a
    · subst hra
      rw [upgradeApp_exec_current hp (.inr ⟨r, ha, (newApp_eq_self_iff ext r).1 hn⟩)]
      exact ha
    -- the write is due, so the version came back past the readiness gate
    simp only [upgradeApp, lift_bind, exec_call, Store.answer, hps, List.map_cons, Table.getE, ha, hn, hra,
      ite_false, lookupE] at hok
    obtain ⟨cluster, hc, hcr⟩ :
        ∃ cluster, t.readOnly.clusters E.clusterName = some cluster ∧ cluster.ready = true := by
      cases hc : t.readOnly.clusters E.clusterName with
      | none => simp [hc] at hok
      | some cluster => cases hcr : cluster.ready <;> simp_all
    obtain ⟨catalog, hk, hkr⟩ : ∃ catalog, t.readOnly.catalogs cat = some catalog ∧
        catalog.upgraded = true ∧ catalog.refreshed = true ∧ catalog.diskCached = true := by
      cases hk : t.readOnly.catalogs cat with
      | none => simp [hc, hcr, hk, Store.answer, lookupE] at hok
      | some catalog =>
        refine ⟨catalog, rfl, ?_⟩
        by_contra hkr
        simp only [hc, hcr, hk, Store.answer, lookupE, Bool.not_true, Bool.false_eq_true, ite_false, exec_call] at hok
        rcases catalog with ⟨_ | _, _ | _, _ | _⟩ <;> simp_all
    have hw := appWrite_of_newApp hp ha hn hra hc hcr hk hkr
    rw [upgradeApp_exec_of_write hw]
    exact hw.get_written hp

end Exec

end AlertUpgrade
