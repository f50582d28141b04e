import AlertUpgrade.Keys

/-!
# The `//migrate legacy` block

`migrated` is the store the block leaves when every call is answered: the cluster loop's fold, then the project
loop's fold over `projectPlan`, then `cattle-alerting` deleted (`migrateLegacy_exec`). Its value at every key is given
by `migrated_clusterRule`, `migrated_clusterGroup`, `migrated_projectRule` and `migrated_projectGroup`.

`MigReach s s'` collects what every run of the block from `s` leaves, the completed run included
(`migReach_migrated`): the same read-only data, `cattle-alerting` possibly deleted, and at every key of the four
migrated tables a value the loops can leave there. Every run either completes and returns `nil`, or stops with an error
or a panic in a `MigReach` store with the namespaces and the app table untouched (`migrateLegacy_wp`).

The block run to completion from any such store leaves what it leaves from `s`, the app table apart
(`migrated_of_migReach`): the migration is safe to retry wherever a run stopped.
-/

namespace AlertUpgrade

open Prog

section Stopped

variable {β γ : Type} {step ruleStep : Store → β → Store}

theorem Stopped.eq_of_step {xs : List β} {s s' : Store} (hs : Stopped step ruleStep xs s s') (f : Store → γ)
    (h : ∀ σ x, f (step σ x) = f σ) (hr : ∀ σ x, f (ruleStep σ x) = f σ) : f s' = f s := by
  obtain ⟨pre, -, rfl | ⟨v, -, rfl⟩⟩ := hs
  · exact foldl_eq_of_step f h pre s
  · rw [hr, foldl_eq_of_step f h pre s]

end Stopped

/-- The store the `//migrate legacy` block leaves when every call is answered. -/
def migrated (E : AlertService) (order : MapOrder) (s : Store) : Store :=
  ((projectPlan E.clusterName order s.readOnly.projectAlerts).foldl projectStep
    ((listedClusterAlerts E.clusterName s).foldl (clusterStep E.clusterName) s)).deleteNamespace "cattle-alerting"

/-! ## The migrated store, key by key -/

section Migrated

variable (E : AlertService) (order : MapOrder) (s : Store)

theorem clusterFold_readOnly :
    ((listedClusterAlerts E.clusterName s).foldl (clusterStep E.clusterName) s).readOnly = s.readOnly :=
  foldl_eq_of_step Store.readOnly (clusterStep_readOnly _) _ _

theorem clusterFold_tables_of_ne {k : Kind} (h₁ : k ≠ .clusterAlertRule) (h₂ : k ≠ .clusterAlertGroup) :
    ((listedClusterAlerts E.clusterName s).foldl (clusterStep E.clusterName) s).tables k = s.tables k :=
  foldl_eq_of_step (·.tables k) (fun σ v => clusterStep_tables_of_ne _ σ h₁ h₂ v) _ _

theorem projectFold_tables_of_ne {k : Kind} (h₁ : k ≠ .projectAlertRule) (h₂ : k ≠ .projectAlertGroup)
    (xs : List ProjectAlert) (σ : Store) : (xs.foldl projectStep σ).tables k = σ.tables k :=
  foldl_eq_of_step (·.tables k) (fun σ v => projectStep_tables_of_ne σ h₁ h₂ v) _ _

@[simp] theorem migrated_readOnly : (migrated E order s).readOnly = s.readOnly := by
  rw [migrated, Store.deleteNamespace_readOnly, foldl_eq_of_step Store.readOnly (projectStep_readOnly · ·),
    clusterFold_readOnly]

@[simp] theorem migrated_namespaces : (migrated E order s).namespaces = (s.deleteNamespace "cattle-alerting").namespaces := by
  simp only [migrated, Store.deleteNamespace, foldl_eq_of_step Store.namespaces (projectStep_namespaces · ·),
    foldl_eq_of_step Store.namespaces (clusterStep_namespaces _ · ·)]

@[simp] theorem migrated_app : (migrated E order s).tables .app = s.tables .app := by
  rw [migrated, Store.deleteNamespace_tables, projectFold_tables_of_ne (by decide) (by decide),
    clusterFold_tables_of_ne _ _ (by decide) (by decide)]

theorem migrated_clusterRule (κ : Key) :
    ((migrated E order s).tables .clusterAlertRule).get κ =
      lastRule .clusterAlertRule (newClusterRule E.clusterName)
        ((listedClusterAlerts E.clusterName s).filter fun v =>
          Kind.key .clusterAlertRule (newClusterRule E.clusterName v) = κ)
        ((s.tables .clusterAlertRule).get κ) := by
  rw [migrated, Store.deleteNamespace_tables, projectFold_tables_of_ne (by decide) (by decide),
    get_foldl_fresh (newClusterRule_fresh _) (clusterStep_rule _)]

theorem migrated_clusterGroup (κ : Key) :
    ((migrated E order s).tables .clusterAlertGroup).get κ =
      firstGroup .clusterAlertGroup (legacyClusterGroup E.clusterName)
        ((listedClusterAlerts E.clusterName s).filter fun v =>
          Kind.key .clusterAlertGroup (legacyClusterGroup E.clusterName v) = κ)
        ((s.tables .clusterAlertGroup).get κ) := by
  rw [migrated, Store.deleteNamespace_tables, projectFold_tables_of_ne (by decide) (by decide),
    get_foldl_ensure (clusterStep_group _)]

theorem migrated_projectRule (κ : Key) :
    ((migrated E order s).tables .projectAlertRule).get κ =
      lastRule .projectAlertRule (fun v => newProjectRule v.spec.projectName (refParse v.spec.projectName).2 v)
        ((projectPlan E.clusterName order s.readOnly.projectAlerts).filter fun v =>
          Kind.key .projectAlertRule (newProjectRule v.spec.projectName (refParse v.spec.projectName).2 v) = κ)
        ((s.tables .projectAlertRule).get κ) := by
  rw [migrated, Store.deleteNamespace_tables, get_foldl_fresh newProjectRule_fresh projectStep_rule,
    clusterFold_tables_of_ne _ _ (by decide) (by decide)]

theorem migrated_projectGroup (κ : Key) :
    ((migrated E order s).tables .projectAlertGroup).get κ =
      firstGroup .projectAlertGroup (fun v => legacyProjectGroup v.spec.projectName (refParse v.spec.projectName).2 v)
        ((projectPlan E.clusterName order s.readOnly.projectAlerts).filter fun v =>
          Kind.key .projectAlertGroup (legacyProjectGroup v.spec.projectName (refParse v.spec.projectName).2 v) = κ)
        ((s.tables .projectAlertGroup).get κ) := by
  rw [migrated, Store.deleteNamespace_tables, get_foldl_ensure projectStep_group,
    clusterFold_tables_of_ne _ _ (by decide) (by decide)]

end Migrated

/-! ## What a run of the block leaves -/

/-- What a run of the `//migrate legacy` block from `s` can leave, the completed run included: the read-only data
unchanged, `cattle-alerting` possibly deleted, and at every key of the four migrated tables a value the loops can leave
there. The app table is not constrained. -/
structure MigReach (E : AlertService) (order : MapOrder) (s s' : Store) : Prop where
  readOnly : s'.readOnly = s.readOnly
  namespaces : s'.namespaces = s.namespaces ∨ s'.namespaces = (s.deleteNamespace "cattle-alerting").namespaces
  clusterRule : ∀ κ, RuleReach .clusterAlertRule (newClusterRule E.clusterName) (listedClusterAlerts E.clusterName s) κ
    ((s.tables .clusterAlertRule).get κ) ((s'.tables .clusterAlertRule).get κ)
  clusterGroup : ∀ κ, GroupReach .clusterAlertGroup (legacyClusterGroup E.clusterName)
    (listedClusterAlerts E.clusterName s) κ ((s.tables .clusterAlertGroup).get κ) ((s'.tables .clusterAlertGroup).get κ)
  projectRule : ∀ κ, RuleReach .projectAlertRule
    (fun v => newProjectRule v.spec.projectName (refParse v.spec.projectName).2 v)
    (projectPlan E.clusterName order s.readOnly.projectAlerts) κ
    ((s.tables .projectAlertRule).get κ) ((s'.tables .projectAlertRule).get κ)
  projectGroup : ∀ κ, GroupReach .projectAlertGroup
    (fun v => legacyProjectGroup v.spec.projectName (refParse v.spec.projectName).2 v)
    (projectPlan E.clusterName order s.readOnly.projectAlerts) κ
    ((s.tables .projectAlertGroup).get κ) ((s'.tables .projectAlertGroup).get κ)

section Reach

variable {E : AlertService} {order : MapOrder} {s : Store}

theorem migReach_migrated : MigReach E order s (migrated E order s) where
  readOnly := migrated_readOnly E order s
  namespaces := .inr (migrated_namespaces E order s)
  clusterRule κ := by rw [migrated_clusterRule]; exact ruleReach_lastRule _ _ _
  clusterGroup κ := by rw [migrated_clusterGroup]; exact .inr rfl
  projectRule κ := by rw [migrated_projectRule]; exact ruleReach_lastRule _ _ _
  projectGroup κ := by rw [migrated_projectGroup]; exact .inr rfl

/-- The block leaves the app table alone: a store it can leave stays one after any app write. -/
theorem migReach_setApp {t : Store} (h : MigReach E order s t) (X : Table Kind.app.Obj Kind.app.key) :
    MigReach E order s (t.setTable .app X) where
  readOnly := h.readOnly
  namespaces := h.namespaces
  clusterRule := by simpa using h.clusterRule
  clusterGroup := by simpa using h.clusterGroup
  projectRule := by simpa using h.projectRule
  projectGroup := by simpa using h.projectGroup

/-- A run stopped in the cluster loop. -/
theorem migReach_of_clusterStopped {s' : Store}
    (h : Stopped (clusterStep E.clusterName) (clusterRuleStep E.clusterName) (listedClusterAlerts E.clusterName s) s s') :
    MigReach E order s s' ∧ s'.namespaces = s.namespaces ∧ s'.tables .app = s.tables .app := by
  have ht : ∀ {k : Kind}, k ≠ .clusterAlertRule → k ≠ .clusterAlertGroup → s'.tables k = s.tables k := fun h₁ h₂ =>
    h.eq_of_step (·.tables _) (fun σ v => clusterStep_tables_of_ne _ σ h₁ h₂ v) fun σ v => Store.upsert_tables_of_ne _ h₁
  have hn := h.eq_of_step Store.namespaces (clusterStep_namespaces _) fun _ _ => rfl
  refine ⟨⟨h.eq_of_step Store.readOnly (clusterStep_readOnly _) fun _ _ => rfl, .inl hn, ?_, ?_, fun κ => ?_,
    fun κ => ?_⟩, hn, ht (by decide) (by decide)⟩
  · exact h.ruleReach (newClusterRule_fresh _) (clusterStep_rule _) fun σ v κ => Store.upsert_get _ κ
  · exact h.groupReach (clusterStep_group _) fun σ v => Store.upsert_tables_of_ne _ (by decide)
  · rw [ht (by decide) (by decide)]; exact ruleReach_refl _ _ _
  · rw [ht (by decide) (by decide)]; exact .inl rfl

/-- A run stopped in the project loop, after the cluster loop completed. -/
theorem migReach_of_projectStopped {s' : Store}
    (h : Stopped projectStep projectRuleStep (projectPlan E.clusterName order s.readOnly.projectAlerts)
      ((listedClusterAlerts E.clusterName s).foldl (clusterStep E.clusterName) s) s') :
    MigReach E order s s' ∧ s'.namespaces = s.namespaces ∧ s'.tables .app = s.tables .app := by
  have hm := @migReach_migrated E order s
  have hc : ∀ {k : Kind}, k ≠ .projectAlertRule → k ≠ .projectAlertGroup →
      s'.tables k = (migrated E order s).tables k := fun h₁ h₂ => by
    rw [h.eq_of_step (·.tables _) (fun σ v => projectStep_tables_of_ne σ h₁ h₂ v)
      fun σ v => Store.upsert_tables_of_ne _ h₁, migrated, Store.deleteNamespace_tables, projectFold_tables_of_ne h₁ h₂]
  have hp : ∀ {k : Kind}, k ≠ .clusterAlertRule → k ≠ .clusterAlertGroup →
      ((listedClusterAlerts E.clusterName s).foldl (clusterStep E.clusterName) s).tables k = s.tables k :=
    clusterFold_tables_of_ne E s
  have hn : s'.namespaces = s.namespaces := by
    rw [h.eq_of_step Store.namespaces (projectStep_namespaces ·) fun _ _ => rfl]
    exact foldl_eq_of_step Store.namespaces (clusterStep_namespaces _) _ _
  refine ⟨⟨?_, .inl hn, fun κ => ?_, fun κ => ?_, fun κ => ?_, fun κ => ?_⟩, hn, ?_⟩
  · rw [h.eq_of_step Store.readOnly (projectStep_readOnly ·) fun _ _ => rfl, clusterFold_readOnly]
  · rw [hc (by decide) (by decide)]; exact hm.clusterRule κ
  · rw [hc (by decide) (by decide)]; exact hm.clusterGroup κ
  · rw [← hp (k := .projectAlertRule) (by decide) (by decide)]
    exact h.ruleReach newProjectRule_fresh projectStep_rule (fun σ v κ => Store.upsert_get _ κ) κ
  · rw [← hp (k := .projectAlertGroup) (by decide) (by decide)]
    exact h.groupReach projectStep_group (fun σ v => Store.upsert_tables_of_ne _ (by decide)) κ
  · rw [hc (by decide) (by decide), migrated_app]

/-- The block run to completion from a store a run of it left is the block run from `s`, with that store's apps. -/
theorem migrated_of_migReach {s' : Store} (h : MigReach E order s s') :
    migrated E order s' = (migrated E order s).setTable .app (s'.tables .app) := by
  have hl : listedClusterAlerts E.clusterName s' = listedClusterAlerts E.clusterName s := by
    rw [listedClusterAlerts, listedClusterAlerts, h.readOnly]
  refine Store.ext_get (by simp [h.readOnly]) ?_ fun k κ => ?_
  · funext n
    rcases h.namespaces with hn | hn <;> simp [Store.deleteNamespace_namespaces, hn]
  · cases k with
    | clusterAlertRule =>
      rw [Store.setTable_tables_of_ne _ _ (by decide), migrated_clusterRule, migrated_clusterRule, hl,
        lastRule_of_ruleReach (newClusterRule_fresh _) (h.clusterRule κ)]
    | clusterAlertGroup =>
      rw [Store.setTable_tables_of_ne _ _ (by decide), migrated_clusterGroup, migrated_clusterGroup, hl,
        firstGroup_of_groupReach (h.clusterGroup κ)]
    | projectAlertRule =>
      rw [Store.setTable_tables_of_ne _ _ (by decide), migrated_projectRule, migrated_projectRule, h.readOnly,
        lastRule_of_ruleReach newProjectRule_fresh (h.projectRule κ)]
    | projectAlertGroup =>
      rw [Store.setTable_tables_of_ne _ _ (by decide), migrated_projectGroup, migrated_projectGroup, h.readOnly,
        firstGroup_of_groupReach (h.projectGroup κ)]
    | app => rw [Store.setTable_tables_self, migrated_app]

end Reach

/-! ## Every run of the block -/

theorem migrateLegacy_exec (E : AlertService) (order : MapOrder) (currentVersion : String) (s : Store) :
    (migrateLegacy E order currentVersion).exec s =
      (.returned none, if stringsContains currentVersion monitoringMarker then s else migrated E order s) := by
  unfold migrateLegacy
  cases stringsContains currentVersion monitoringMarker
  · simp only [Bool.not_false, ite_true, exec_bind, migrateLegacyClusterAlert_exec, migrateLegacyProjectAlert_exec,
      removeLegacyAlerting_exec, clusterFold_readOnly]
    rfl
  · rfl

/-- Every run of the block either completes and returns `nil`, or stops early, with an error or a panic, in a
`MigReach` store with the namespaces and the app table untouched. -/
theorem migrateLegacy_wp (E : AlertService) (order : MapOrder) (currentVersion : String) (s : Store) :
    wp (migrateLegacy E order currentVersion) (fun out s' _ =>
      out = .returned none ∧ s' = (if stringsContains currentVersion monitoringMarker then s else migrated E order s) ∨
      out ≠ .returned none ∧ stringsContains currentVersion monitoringMarker = false ∧
        MigReach E order s s' ∧ s'.namespaces = s.namespaces ∧ s'.tables .app = s.tables .app) s := by
  unfold migrateLegacy
  cases hm : stringsContains currentVersion monitoringMarker
  · simp only [Bool.not_false, ite_true, Bool.false_eq_true, ite_false]
    refine wp_seq (wp_mono (migrateLegacyClusterAlert_wp E s) ?_)
    rintro out s₁ - (⟨rfl, rfl⟩ | ⟨hne, hst⟩)
    · refine ⟨fun _ => wp_seq (wp_mono (migrateLegacyProjectAlert_wp E order _) ?_), fun h => absurd rfl h⟩
      rw [clusterFold_readOnly]
      rintro out s₂ - (⟨rfl, rfl⟩ | ⟨hne, hst⟩)
      · refine ⟨fun _ => wp_mono (removeLegacyAlerting_wp _) ?_, fun h => absurd rfl h⟩
        rintro out s₃ - (⟨rfl, rfl⟩ | ⟨⟨e, rfl⟩, rfl⟩)
        · exact .inl ⟨rfl, rfl⟩
        · exact .inr ⟨by simp, trivial, migReach_of_projectStopped ⟨_, List.prefix_refl _, .inl rfl⟩⟩
      · exact ⟨fun h => absurd h hne, fun _ => .inr ⟨hne, trivial, migReach_of_projectStopped hst⟩⟩
    · exact ⟨fun h => absurd h hne, fun _ => .inr ⟨hne, trivial, migReach_of_clusterStopped hst⟩⟩
  · simp

end AlertUpgrade
