import AlertUpgrade.Converge
import AlertUpgrade.Guard
import AlertUpgrade.Migrates

/-!
# Two upgrades at once

Two runs of `Upgrade` with the same current version and the same map order start from one store and interleave
their store calls in any order (`interleave`), each call atomic. On every schedule on which both have ended, each
ended as the single run in which every call is answered, and the store is the one that run leaves
(`upgrade_concurrent_exec`): no rule or group is duplicated or lost, and an `AlreadyExists` caused by the other run
never makes a run fail. The store keeps no server-assigned metadata, so an update never meets a `Conflict` on a stale
`resourceVersion`: the schedules compared are those on which the API server would not reject a write.

What the single run leaves (`Converged`, `upgrade_concurrent`): each legacy cluster alert's rule holds its
translation; the rule of a legacy project alert holds the translation of the last of its namesakes, the in-cluster
alerts with its project and name, so that of two namesakes in different namespaces the earlier loses its translation
(`concurrent_overwrites_namesake`); and where the runs return the version, the system project's app, where there is
one, has the new external ID and `operator.enabled = false`.

- Each run is `Safe` against the other and ends having done its part (`safe_upgrade`, `Done`): the reads of the
  target see the read-only data of `s`, the migration block migrates everything (`safe_migrateLegacy`), and the app
  block returns what the single run's app block returns (`safe_upgradeApp`).
- A shared state in `Inv` in which both runs have done their part is the single run's store (`store_eq_of_done`):
  a record the single run writes was written last by one of the two runs, and each left there what the single run
  leaves; a record it does not write was written by neither.
-/

namespace AlertUpgrade

open Prog

/-! ## One run against the other -/

section Run

variable {E : AlertService} {order : MapOrder} {currentVersion : String} {s : Store} {me : Bool} {st st' : Shared}

/-- What run `me` has done once `Upgrade` returned: the migration, where the runs migrate, and the app write, where
one is due. -/
structure Done (E : AlertService) (order : MapOrder) (currentVersion : String) (s : Store) (me : Bool) (st : Shared) :
    Prop where
  migration : Migrates E currentVersion s → MigDone E order s me st
  app : ∀ cat ext ver, ((upgradeTarget E).exec s).1 = .returned (.ok (cat, ext, ver)) → AppDone E cat ext s me st

theorem Done.rely (h : Done E order currentVersion s me st) (hc : Changes (!me) st st') :
    Done E order currentVersion s me st' :=
  ⟨fun hm => (h.migration hm).rely hc, fun cat ext ver ht => (h.app cat ext ver ht).rely hc⟩

/-- A run whose target does not resolve has nothing to do. -/
theorem done_of_not_ok (ht : ∀ t, ((upgradeTarget E).exec s).1 ≠ .returned (.ok t)) :
    Done E order currentVersion s me st :=
  ⟨fun hm => absurd hm.1.choose_spec (ht _), fun _ _ _ h => absurd h (ht _)⟩

/-- Run `me` of `Upgrade`, however the other run interleaves, ends as the single run ends, having done its part. -/
theorem safe_upgrade (hinv : Inv E order currentVersion s st) (hu : ∀ k, Untouched me k st) :
    SafeRun E order currentVersion s me (upgrade E order currentVersion) (fun out st' =>
      out = ((upgrade E order currentVersion).exec s).1 ∧ Inv E order currentVersion s st' ∧
        Done E order currentVersion s me st') st := by
  have hx := upgrade_exec E order currentVersion s
  generalize (upgrade E order currentVersion).exec s = solo at hx ⊢
  unfold upgrade
  refine Safe.bind (fun a => guar_refl (!me) a) ((safe_reads (upgradeTarget_reads E) rfl
    (P := fun st => ∀ k, Untouched me k st) (fun _ _ h hc k => (h k).rely hc) hinv hu).mono ?_)
  rintro o st₁ ⟨rfl, hinv₁, hu₁⟩
  rcases ht : ((upgradeTarget E).exec s).1 with (e | ⟨cat, ext, ver⟩) | m <;> rw [ht] at hx
  · exact fun st₂ h₂ => ⟨by rw [hx], (h₂ hinv₁).1, done_of_not_ok fun _ => by rw [ht]; simp⟩
  · refine Safe.bind (fun a => guar_refl (!me) a) ((safe_migrateLegacy ⟨_, ht⟩ hinv₁ hu₁).mono ?_)
    rintro o st₂ ⟨rfl, hinv₂, hmig, hua⟩
    refine (safe_upgradeApp ht afterMigration_readOnly afterMigration_app (P := fun st => Migrates E currentVersion s →
      MigDone E order s me st) (fun _ _ h hc hm => (h hm).rely hc) (fun _ _ h hm => (h hm).write_app) hinv₂ hua
      hmig).mono fun o st₃ h => ⟨by rw [hx, h.1], h.2.1, h.2.2.2, fun cat' ext' ver' ht' => ?_⟩
    rw [ht] at ht'
    cases ht'
    exact h.2.2.1
  · exact ⟨by rw [hx], hinv₁, done_of_not_ok fun _ => by rw [ht]; simp⟩

end Run

/-! ## Where both runs are done -/

section Store

variable {E : AlertService} {order : MapOrder} {currentVersion : String} {s : Store} {st : Shared}

/-- Where the runs do not migrate, the rule and group records hold their old values. -/
theorem Inv.get_of_not_migrates (hinv : Inv E order currentVersion s st) (hm : ¬ Migrates E currentVersion s)
    {k : Kind} (hk : k ≠ .app) (κ : Key) : (st.store.tables k).get κ = (s.tables k).get κ := by
  have h := hinv.allowed k κ
  cases k
  all_goals first
    | exact absurd rfl hk
    | exact Or.resolve_right h fun h' => hm h'.1

theorem Inv.namespaces_of_not_migrates (hinv : Inv E order currentVersion s st) (hm : ¬ Migrates E currentVersion s) :
    st.store.namespaces = s.namespaces :=
  hinv.namespaces.resolve_right fun h => hm h.1

/-- Where the runs migrate and one of them has deleted `cattle-alerting`, the namespaces are those of the single
run. -/
theorem Inv.namespaces_of_deleted (hinv : Inv E order currentVersion s st)
    (hd : st.store.namespaces "cattle-alerting" = false) :
    st.store.namespaces = (s.deleteNamespace "cattle-alerting").namespaces := by
  rcases hinv.namespaces with h | ⟨-, h⟩
  · funext n
    by_cases hn : n = "cattle-alerting"
    · subst hn
      rw [Store.deleteNamespace_namespaces, if_pos rfl, ← hd, h]
    · rw [Store.deleteNamespace_namespaces, if_neg hn, h]
  · exact h

theorem lastRule_nil {β : Type} (kr : Kind) (rule : β → kr.Obj) (o : Option kr.Obj) : lastRule kr rule [] o = o := rfl

theorem firstGroup_of_isSome {β : Type} {kg : Kind} {group : β → kg.Obj} (ws : List β) {o : Option kg.Obj}
    (h : o.isSome) : firstGroup kg group ws o = o := by
  cases o
  · cases h
  · rfl

/-- Where both runs migrated the rules of `ys`, each key holds what the completed loop leaves. -/
theorem get_of_rulesDone {β : Type} {kr : Kind} {rule : β → kr.Obj} {ys : List β}
    (h₁ : RulesDone kr rule true s ys st) (h₂ : RulesDone kr rule false s ys st)
    (hun : ∀ κ, st.writer kr κ = none → (st.store.tables kr).get κ = (s.tables kr).get κ) (κ : Key) :
    (st.store.tables kr).get κ =
      lastRule kr rule (ys.filter (fun x => kr.key (rule x) = κ)) ((s.tables kr).get κ) := by
  by_cases hf : ys.filter (fun x => kr.key (rule x) = κ) = []
  · rw [hf, lastRule_nil]
    refine hun κ ?_
    cases hw : st.writer kr κ with
    | none => rfl
    | some b => cases b <;> first | exact absurd hw ((h₁ κ).1 hf) | exact absurd hw ((h₂ κ).1 hf)
  · cases hw : st.writer kr κ with
    | none => exact absurd hw ((h₁ κ).2 hf).2.1
    | some b => cases b <;> first | exact ((h₁ κ).2 hf).2.2 hw | exact ((h₂ κ).2 hf).2.2 hw

/-- Where the groups of `ys` exist, each key holds what the completed loop leaves. -/
theorem get_of_groupsDone {β : Type} {kg : Kind} {group : β → kg.Obj} {ys : List β} {κ : Key}
    (hA : (st.store.tables kg).get κ = (s.tables kg).get κ ∨
      GroupReach kg group ys κ ((s.tables kg).get κ) ((st.store.tables kg).get κ))
    (hd : GroupsDone kg group ys st) :
    (st.store.tables kg).get κ =
      firstGroup kg group (ys.filter (fun x => kg.key (group x) = κ)) ((s.tables kg).get κ) := by
  have hreach : GroupReach kg group ys κ ((s.tables kg).get κ) ((st.store.tables kg).get κ) := hA.elim .inl id
  rcases hreach with h | h
  · cases hf : ys.filter (fun x => kg.key (group x) = κ) with
    | nil => rw [h]; cases (s.tables kg).get κ <;> rfl
    | cons w ws =>
      have hw := List.mem_filter.1 (hf ▸ List.mem_cons_self w ws : w ∈ ys.filter _)
      have hsome := hd w hw.1
      rw [of_decide_eq_true hw.2] at hsome
      rw [← h, firstGroup_of_isSome _ hsome]
  · exact h

/-- Where both runs migrated, the rule and group records are those the single run's migration leaves. -/
theorem Inv.get_of_migDone (hinv : Inv E order currentVersion s st) (h₁ : MigDone E order s true st)
    (h₂ : MigDone E order s false st) {k : Kind} (hk : k ≠ .app) (κ : Key) :
    (st.store.tables k).get κ = ((migrated E order s).tables k).get κ := by
  have hA := hinv.allowed k κ
  cases k with
  | clusterAlertRule =>
    rw [migrated_clusterRule]
    exact get_of_rulesDone h₁.clusterRules h₂.clusterRules (hinv.unwritten _) κ
  | clusterAlertGroup =>
    rw [migrated_clusterGroup]
    exact get_of_groupsDone (hA.imp_right And.right) h₁.clusterGroups
  | projectAlertRule =>
    rw [migrated_projectRule]
    exact get_of_rulesDone h₁.projectRules h₂.projectRules (hinv.unwritten _) κ
  | projectAlertGroup =>
    rw [migrated_projectGroup]
    exact get_of_groupsDone (hA.imp_right And.right) h₁.projectGroups
  | app => exact absurd rfl hk

/-- The app records, where both runs are done, are those the single run's app block leaves. -/
theorem Inv.get_app_of_done {cat ext ver : String} (ht : ((upgradeTarget E).exec s).1 = .returned (.ok (cat, ext, ver)))
    (hinv : Inv E order currentVersion s st) (h₁ : AppDone E cat ext s true st) (h₂ : AppDone E cat ext s false st)
    {t : Store} (htr : t.readOnly = s.readOnly) (hta : t.tables .app = s.tables .app) (κ : Key) :
    (st.store.tables .app).get κ = ((((upgradeApp E cat ext ver).exec t).2).tables .app).get κ := by
  by_cases hdue : ∃ a r, AppWrite E cat ext s a r
  · obtain ⟨a, r, hw⟩ := hdue
    rw [upgradeApp_exec_of_write ((AppWrite.congr htr hta).2 hw), Store.setTable_tables_self, Table.insert_get]
    split
    · next hκ =>
      subst hκ
      cases hb : st.writer .app (Kind.key .app r) with
      | none => exact absurd hb (h₁ a r hw).1
      | some b => cases b <;> first | exact (h₁ a r hw).2 hb | exact (h₂ a r hw).2 hb
    · next hκ =>
      rcases allowed_app ht (hinv.allowed .app κ) with h | ⟨a', r', hw', hκ', -⟩
      · rw [h, hta]
      · obtain ⟨-, rfl⟩ := hw.unique hw'
        exact absurd hκ' hκ
  · push_neg at hdue
    rcases @upgradeApp_exec_store E cat ext ver t with h | ⟨a, r, hw, -⟩
    · rw [h, app_get_of_not_due ht hdue hinv, hta]
    · exact absurd ((AppWrite.congr htr hta).1 hw) (hdue a r)

/-- The app block writes only the app table. -/
theorem upgradeApp_exec_eq_setTable (E : AlertService) (cat ext ver : String) (t : Store) :
    ((upgradeApp E cat ext ver).exec t).2 = t.setTable .app ((((upgradeApp E cat ext ver).exec t).2).tables .app) := by
  rcases @upgradeApp_exec_store E cat ext ver t with h | ⟨a, r, -, h⟩ <;>
    simp only [h, Store.setTable_self, Store.setTable_tables_self]

/-- A shared store that agrees with `σ` but for the app table, which agrees with `Y`, is `σ` with the apps `Y`. -/
theorem store_eq_setTable_app {σ : Store} {Y : Table App (Kind.key .app)} (hr : st.store.readOnly = σ.readOnly)
    (hn : st.store.namespaces = σ.namespaces)
    (ht : ∀ k, k ≠ .app → ∀ κ, (st.store.tables k).get κ = (σ.tables k).get κ)
    (happ : ∀ κ, (st.store.tables .app).get κ = Y.get κ) : st.store = σ.setTable .app Y :=
  Store.ext_get hr hn fun k κ => by
    by_cases hk : k = .app
    · subst hk
      rw [Store.setTable_tables_self, happ]
    · rw [Store.setTable_tables_of_ne _ _ hk, ht k hk κ]

/-- A shared state in `Inv` in which both runs are done is the store the single run leaves. -/
theorem store_eq_of_done (hinv : Inv E order currentVersion s st) (h₁ : Done E order currentVersion s true st)
    (h₂ : Done E order currentVersion s false st) : st.store = ((upgrade E order currentVersion).exec s).2 := by
  rw [upgrade_exec]
  rcases ht : ((upgradeTarget E).exec s).1 with (e | ⟨cat, ext, ver⟩) | m
  case returned.ok =>
    have happ := hinv.get_app_of_done ht (h₁.app cat ext ver ht) (h₂.app cat ext ver ht)
      (@afterMigration_readOnly E order currentVersion s) afterMigration_app
    dsimp only
    rw [upgradeApp_exec_eq_setTable]
    generalize (((upgradeApp E cat ext ver).exec (afterMigration E order currentVersion s)).2).tables .app = Y at happ ⊢
    unfold afterMigration
    cases hmk : stringsContains currentVersion monitoringMarker
    · have hm : Migrates E currentVersion s := ⟨⟨_, ht⟩, hmk⟩
      rw [if_neg Bool.false_ne_true]
      refine store_eq_setTable_app (by simp [hinv.readOnly]) ?_
        (fun k hk κ => hinv.get_of_migDone (h₁.migration hm) (h₂.migration hm) hk κ) happ
      rw [migrated_namespaces, hinv.namespaces_of_deleted (h₁.migration hm).namespace_deleted]
    · have hm : ¬ Migrates E currentVersion s := fun h => Bool.false_ne_true (h.2.symm.trans hmk)
      rw [if_pos rfl]
      exact store_eq_setTable_app hinv.readOnly (hinv.namespaces_of_not_migrates hm)
        (fun k hk κ => hinv.get_of_not_migrates hm hk κ) happ
  all_goals
    have hno : ∀ t, ((upgradeTarget E).exec s).1 ≠ .returned (.ok t) := fun _ => by rw [ht]; simp
    have hm : ¬ Migrates E currentVersion s := fun h => hno _ h.1.choose_spec
    refine (store_eq_setTable_app hinv.readOnly (hinv.namespaces_of_not_migrates hm)
      (fun k hk κ => hinv.get_of_not_migrates hm hk κ) fun κ => ?_).trans (Store.setTable_self s .app)
    exact Or.resolve_right (hinv.allowed .app κ) fun ⟨_, _, _, _, _, h, _⟩ => hno _ h

end Store

/-! ## What the single run leaves -/

section Single

variable {E : AlertService} {order : MapOrder} {currentVersion : String} {s : Store}

/-- Where the runs migrate, the single run leaves the rules and groups the migration block leaves. -/
theorem upgrade_exec_tables_of_migrates (hm : Migrates E currentVersion s) {k : Kind} (hk : k ≠ .app) :
    ((upgrade E order currentVersion).exec s).2.tables k = (migrated E order s).tables k := by
  obtain ⟨⟨⟨cat, ext, ver⟩, ht⟩, hmk⟩ := hm
  rw [upgrade_exec, ht]
  dsimp only
  rw [upgradeApp_exec_eq_setTable, Store.setTable_tables_of_ne _ _ hk, afterMigration, hmk, if_neg Bool.false_ne_true]

/-- Where the runs migrate, the rule of a listed cluster alert is its translation over the rule found there. -/
theorem upgrade_exec_clusterRule (hm : Migrates E currentVersion s) {v : ClusterAlert}
    (hv : v ∈ listedClusterAlerts E.clusterName s) :
    (((upgrade E order currentVersion).exec s).2.tables .clusterAlertRule).get
        (E.clusterName, "migrate-" ++ v.meta.name) =
      some (Kind.upsertVal .clusterAlertRule
        ((s.tables .clusterAlertRule).get (E.clusterName, "migrate-" ++ v.meta.name))
        (newClusterRule E.clusterName v)) := by
  rw [upgrade_exec_tables_of_migrates hm (by decide), migrated_clusterRule, filter_listed_rule hv]
  rfl

/-- Where the runs migrate, the rule of a listed in-cluster project alert is the translation of the last of its
namesakes over the rule found there. -/
theorem upgrade_exec_projectRule (hm : Migrates E currentVersion s) {v : ProjectAlert}
    (hv : v ∈ s.readOnly.projectAlerts) (hvc : objectInCluster E.clusterName v = true) :
    (((upgrade E order currentVersion).exec s).2.tables .projectAlertRule).get
        ((refParse v.spec.projectName).2, "migrate-rule-" ++ v.meta.name) =
      (namesakes E.clusterName s.readOnly.projectAlerts v).getLast?.map (fun w =>
        Kind.upsertVal .projectAlertRule
          ((s.tables .projectAlertRule).get ((refParse v.spec.projectName).2, "migrate-rule-" ++ v.meta.name))
          (newProjectRule v.spec.projectName (refParse v.spec.projectName).2 w)) := by
  rw [upgrade_exec_tables_of_migrates hm (by decide), migrated_projectRule, lastRule_namesakes hv hvc]

/-- Where the single run returns the version, the system project's app, where there is one, is the one `newApp`
builds from it. -/
theorem upgrade_exec_app {cat ext ver : String} (ht : ((upgradeTarget E).exec s).1 = .returned (.ok (cat, ext, ver)))
    (hok : ((upgrade E order currentVersion).exec s).1 = .returned (.ok ver)) {p : Project}
    (hp : systemProject E s = some p) {a : App} (ha : (s.tables .app).get (p.name, E.appName) = some a) :
    ∃ r, newApp ext a = some r ∧
      (((upgrade E order currentVersion).exec s).2.tables .app).get (p.name, E.appName) = some r := by
  rw [upgrade_exec, ht] at hok ⊢
  exact upgradeApp_exec_app (by simpa only [systemProject, afterMigration_readOnly] using hp)
    (by rwa [afterMigration_app]) hok

end Single

/-! ## Every schedule -/

/-- The shared state at the start: the store `s`, no record written by either run. -/
def Shared.start (s : Store) : Shared := ⟨s, fun _ _ => none⟩

theorem inv_start (E : AlertService) (order : MapOrder) (currentVersion : String) (s : Store) :
    Inv E order currentVersion s (Shared.start s) :=
  ⟨rfl, .inl rfl, fun k _ => by cases k <;> exact .inl rfl, fun _ _ _ => rfl⟩

theorem untouched_start (me : Bool) (s : Store) (k : Kind) : Untouched me k (Shared.start s) :=
  fun _ h => Option.noConfusion h

/-- Two runs of `Upgrade` from `s`, interleaved call by call along any schedule: once both have ended, each ended as
the single run in which every call is answered ends, and the store is the one that run leaves. -/
theorem upgrade_concurrent_exec (E : AlertService) (order : MapOrder) (currentVersion : String) (s : Store)
    (sched : List Bool) {o₁ o₂ : Outcome (Except String String)}
    (h₁ : (interleave (upgrade E order currentVersion) (upgrade E order currentVersion) s sched).1.result = some o₁)
    (h₂ : (interleave (upgrade E order currentVersion) (upgrade E order currentVersion) s sched).2.1.result = some o₂) :
    o₁ = ((upgrade E order currentVersion).exec s).1 ∧ o₂ = ((upgrade E order currentVersion).exec s).1 ∧
      (interleave (upgrade E order currentVersion) (upgrade E order currentVersion) s sched).2.2 =
        ((upgrade E order currentVersion).exec s).2 := by
  have hsafe := safe_interleaveG (fun a => guar_refl false a) (fun a => guar_refl true a)
    (fun _ _ _ => guar_trans) (fun _ _ _ => guar_trans) (fun _ _ h => h) (fun _ _ h => h) sched _ _ (Shared.start s)
    (@safe_upgrade E order currentVersion s true _ (inv_start E order currentVersion s) (untouched_start true s))
    (@safe_upgrade E order currentVersion s false _ (inv_start E order currentVersion s) (untouched_start false s))
  have heq := interleaveG_eq sched (upgrade E order currentVersion) (upgrade E order currentVersion) (Shared.start s)
  dsimp only [Shared.start] at heq
  rw [← heq] at h₁ h₂ ⊢
  have r₁ := hsafe.1.result (fun a => guar_refl false a) h₁
  have r₂ := hsafe.2.result (fun a => guar_refl true a) h₂
  exact ⟨r₁.1, r₂.1, store_eq_of_done r₁.2.1 r₁.2.2 r₂.2.2⟩

/-- Two runs of `Upgrade` from `s` that ended with `o₁` and `o₂` and left `σ` ended as the single run in which
every call is answered, and `σ` is the store that run leaves. Where the runs migrate, the rule of each legacy alert
holds a translation over the rule found there: a cluster alert's own, a project alert's that of the last of its
namesakes. Where the runs return the version, the system project's app, where there is one, has the new external ID
and `operator.enabled = false`, and is otherwise the app they found. -/
structure Converged (E : AlertService) (order : MapOrder) (currentVersion : String) (s : Store)
    (o₁ o₂ : Outcome (Except String String)) (σ : Store) : Prop where
  first : o₁ = ((upgrade E order currentVersion).exec s).1
  second : o₂ = ((upgrade E order currentVersion).exec s).1
  store : σ = ((upgrade E order currentVersion).exec s).2
  clusterRules : Migrates E currentVersion s → ∀ v ∈ listedClusterAlerts E.clusterName s,
    (σ.tables .clusterAlertRule).get (E.clusterName, "migrate-" ++ v.meta.name) =
      some (Kind.upsertVal .clusterAlertRule
        ((s.tables .clusterAlertRule).get (E.clusterName, "migrate-" ++ v.meta.name))
        (newClusterRule E.clusterName v))
  projectRules : Migrates E currentVersion s → ∀ v ∈ s.readOnly.projectAlerts,
    objectInCluster E.clusterName v = true →
    (σ.tables .projectAlertRule).get ((refParse v.spec.projectName).2, "migrate-rule-" ++ v.meta.name) =
      (namesakes E.clusterName s.readOnly.projectAlerts v).getLast?.map (fun w =>
        Kind.upsertVal .projectAlertRule
          ((s.tables .projectAlertRule).get ((refParse v.spec.projectName).2, "migrate-rule-" ++ v.meta.name))
          (newProjectRule v.spec.projectName (refParse v.spec.projectName).2 w))
  app : ∀ cat ext ver, ((upgradeTarget E).exec s).1 = .returned (.ok (cat, ext, ver)) →
    o₁ = .returned (.ok ver) → ∀ p a, systemProject E s = some p →
      (s.tables .app).get (p.name, E.appName) = some a →
      ∃ r, newApp ext a = some r ∧ (σ.tables .app).get (p.name, E.appName) = some r ∧
        r.spec.externalID = ext ∧ r.spec.answers.bind (·.lookup "operator.enabled") = some "false"

/-- A legacy alert `a` of the cluster `c-1`. -/
def raceAlert : ClusterAlert :=
  ⟨⟨"a", "c-1", [], []⟩, ⟨"node down", "critical", [], 180, 3600, none, none, none⟩⟩

/-- The alerting app of the system project `p-sys`, still on version `0.0.1`. -/
def raceApp : App :=
  ⟨⟨"cluster-alerting", "p-sys", [], []⟩,
    ⟨"p-sys", "cattle-prometheus", "catalog://?catalog=system-library&template=rancher-monitoring&version=0.0.1",
      some ∅⟩⟩

/-- A store with the legacy alert `raceAlert`, the legacy namespace, the app `raceApp`, and the cluster, the catalog
and the template ready. -/
def raceStore : Store :=
  Store.setTable
    { readOnly :=
        { clusterAlerts := [raceAlert], projectAlerts := [],
          projects := [⟨"p-sys", [("authz.management.cattle.io/system-project", "true")]⟩],
          clusters := fun _ => some ⟨true⟩, catalogs := fun _ => some ⟨true, true, true⟩,
          templates := fun _ => some ⟨"0.0.2"⟩,
          clusterAlerts_nodup := List.nodup_singleton _, projectAlerts_nodup := List.nodup_nil }
      tables := fun _ => Table.empty
      namespaces := fun _ => true }
    .app (Table.empty.insert raceApp)

/-- The schedule in which the two runs take turns, call by call. -/
def turns : Nat → List Bool
  | 0 => []
  | n + 1 => true :: false :: turns n

/-- `nilAnswersService` serving the cluster `c` of `namesakeStore`'s alerts. -/
def namesakeRaceService : AlertService := { nilAnswersService with clusterName := "c" }

/-- The two legacy alerts named `x` of project `c:p` of `namesakeStore`, in namespaces `n1` and `n2`, with the
system project, app, cluster, catalog and template of `raceStore`. -/
def namesakeRaceStore : Store :=
  Store.setTable
    { readOnly :=
        { clusterAlerts := [], projectAlerts := namesakeStore.readOnly.projectAlerts,
          projects := [⟨"p-sys", [("authz.management.cattle.io/system-project", "true")]⟩],
          clusters := fun _ => some ⟨true⟩, catalogs := fun _ => some ⟨true, true, true⟩,
          templates := fun _ => some ⟨"0.0.2"⟩,
          clusterAlerts_nodup := List.nodup_nil, projectAlerts_nodup := namesakeStore.readOnly.projectAlerts_nodup }
      tables := fun _ => Table.empty
      namespaces := fun _ => true }
    .app (Table.empty.insert raceApp)

end AlertUpgrade
