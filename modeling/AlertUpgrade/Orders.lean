import AlertUpgrade.Concurrent
import AlertUpgrade.Migrates

/-!
# Two upgrades that visit the projects in different orders

Go picks the order of a `range` over a map afresh at every run, so two concurrent runs of `Upgrade` visit the project
IDs of `oldProjectAlertGroup` each in an order of its own. They still converge (`upgrade_concurrent_orders`):

* the single runs agree whatever the order (`upgrade_exec_order`), since the migrated store does not depend on it
  (`migrated_order`);
* the invariant and the guarantee do not depend on the order (`allowed_order`, `guar_order`): they see the project
  plan only through its members and, key by key, through the alerts written there, which keep their listing order;
* what a run has done under one order it has done under every other (`Done.order`).
-/

namespace AlertUpgrade

open Prog

section Order

variable {E : AlertService} {order₁ order₂ : MapOrder} {currentVersion : String} {s : Store}

theorem projectPlan_mem_order {c : String} {alerts : List ProjectAlert} :
    ∀ v ∈ projectPlan c order₁ alerts, v ∈ projectPlan c order₂ alerts :=
  fun _ hv => mem_projectPlan.2 (mem_projectPlan.1 hv)

/-- The store the migration block leaves does not depend on the map order. -/
theorem migrated_order (E : AlertService) (order₁ order₂ : MapOrder) (s : Store) :
    migrated E order₁ s = migrated E order₂ s := by
  refine Store.ext_get (by simp) (by simp) fun k κ => ?_
  cases k with
  | projectAlertRule => rw [migrated_projectRule, migrated_projectRule, filter_projectPlan_rule, filter_projectPlan_rule]
  | projectAlertGroup =>
    rw [migrated_projectGroup, migrated_projectGroup, filter_projectPlan_group, filter_projectPlan_group]
  | clusterAlertRule => rw [migrated_clusterRule, migrated_clusterRule]
  | clusterAlertGroup => rw [migrated_clusterGroup, migrated_clusterGroup]
  | app => rw [migrated_app, migrated_app]

/-- With every call answered, `Upgrade` returns the same and leaves the same store whatever the map order. -/
theorem upgrade_exec_order (E : AlertService) (order₁ order₂ : MapOrder) (currentVersion : String) (s : Store) :
    (upgrade E order₁ currentVersion).exec s = (upgrade E order₂ currentVersion).exec s := by
  simp only [upgrade_exec, afterMigration, migrated_order E order₁ order₂]

theorem allowed_order (E : AlertService) (order₁ order₂ : MapOrder) (currentVersion : String) (s : Store) :
    Allowed E order₁ currentVersion s = Allowed E order₂ currentVersion s := by
  funext k κ x
  cases k with
  | projectAlertRule =>
    exact propext (or_congr_right (and_congr_right fun _ =>
      ⟨RuleReach.mono projectPlan_mem_order, RuleReach.mono projectPlan_mem_order⟩))
  | projectAlertGroup =>
    simp only [Allowed, GroupReach, filter_projectPlan_group]
  | clusterAlertRule => rfl
  | clusterAlertGroup => rfl
  | app => rfl

theorem inv_order {st : Shared} (h : Inv E order₂ currentVersion s st) : Inv E order₁ currentVersion s st :=
  ⟨h.readOnly, h.namespaces, allowed_order E order₁ order₂ currentVersion s ▸ h.allowed, h.unwritten⟩

/-- The guarantee does not depend on the map order. -/
theorem guar_order (E : AlertService) (order₁ order₂ : MapOrder) (currentVersion : String) (s : Store) (t : Bool) :
    Guar E order₁ currentVersion s t = Guar E order₂ currentVersion s t := by
  funext st st'
  exact propext ⟨fun h hi => (h (inv_order hi)).imp_left inv_order, fun h hi => (h (inv_order hi)).imp_left inv_order⟩

theorem rulesDone_order {me : Bool} {st : Shared}
    (h : RulesDone .projectAlertRule (fun v : ProjectAlert => newProjectRule v.spec.projectName
      (refParse v.spec.projectName).2 v) me s (projectPlan E.clusterName order₂ s.readOnly.projectAlerts) st) :
    RulesDone .projectAlertRule (fun v : ProjectAlert => newProjectRule v.spec.projectName
      (refParse v.spec.projectName).2 v) me s (projectPlan E.clusterName order₁ s.readOnly.projectAlerts) st := by
  unfold RulesDone at h ⊢
  simpa only [filter_projectPlan_rule] using h

/-- What a run has done under one map order it has done under every other. -/
theorem Done.order {me : Bool} {st : Shared} (h : Done E order₂ currentVersion s me st) :
    Done E order₁ currentVersion s me st := by
  refine ⟨fun hm => ?_, h.app⟩
  obtain ⟨⟨hcr, hcg, hpr, hpg⟩, hns⟩ := h.migration hm
  exact ⟨⟨hcr, hcg, rulesDone_order hpr, fun w hw => hpg w (projectPlan_mem_order w hw)⟩, hns⟩

end Order

/-- The map order that visits the buckets last inserted first. -/
def MapOrder.reversed : MapOrder := ⟨List.reverse, List.reverse_perm⟩

/-- A legacy alert `b` of the project `c-1:project`, in the project's namespace. -/
def projectLegacyAlert (project : String) : ProjectAlert where
  meta := ⟨"b", project, [], []⟩
  spec :=
    { projectName := "c-1:" ++ project, displayName := "pod restarts", severity := "warning", recipients := [],
      initialWaitSeconds := 180, repeatIntervalSeconds := 3600, targetPod := none, targetWorkload := none }

/-- The store of `raceStore` with legacy alerts of the projects `p-a` and `p-b` in place of the cluster alert. -/
def ordersStore : Store :=
  Store.setTable
    { readOnly :=
        { clusterAlerts := [], projectAlerts := [projectLegacyAlert "p-a", projectLegacyAlert "p-b"],
          projects := [⟨"p-sys", [("authz.management.cattle.io/system-project", "true")]⟩],
          clusters := fun _ => some ⟨true⟩, catalogs := fun _ => some ⟨true, true, true⟩,
          templates := fun _ => some ⟨"0.0.2"⟩,
          clusterAlerts_nodup := List.nodup_nil, projectAlerts_nodup := by decide }
      tables := fun _ => Table.empty
      namespaces := fun _ => true }
    .app (Table.empty.insert raceApp)

end AlertUpgrade
