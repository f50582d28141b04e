import AlertUpgrade.Block

/-!
# What the migration loops leave

For a run of a migration loop that returns `nil`:

* every listed cluster alert has its rule, with the translated spec and the metadata of the rule it replaced, and
  its group, unless one was there (`migrateLegacyClusterAlert_migrates`). The listed alerts share the cluster's
  namespace and so have pairwise distinct names, which keeps their keys apart;
* the derived project keys drop the alert's own namespace: in-cluster alerts of one project and one name share a rule
  and a group. The rule holds the translation of the last of them in listing order, the group that of the first
  (`migrateLegacyProjectAlert_migrates`); `migrateLegacyProjectAlert_overwrites_namesake` is a store where this
  loses an alert's translation.

The project loop's result does not depend on the order the `range` over the Go map visits its buckets
(`migrateLegacyProjectAlert_order_independent`): the writes at a key all come from one bucket.
-/

namespace AlertUpgrade

open Prog

/-- A list with pairwise distinct keys holds one element of `v`'s key. -/
theorem filter_key_eq_singleton {α β : Type} [DecidableEq α] [DecidableEq β] {f : α → β} {l : List α}
    (hnd : (l.map f).Nodup) {v : α} (hv : v ∈ l) : l.filter (fun w => f w = f v) = [v] := by
  have hinj := List.inj_on_of_nodup_map hnd
  have : l.filter (fun w => f w = f v) = l.filter (· = v) :=
    List.filter_congr fun w hw => decide_eq_decide.2 ⟨hinj hw hv, congrArg f⟩
  rw [this, List.filter_eq, List.count_eq_one_of_mem (hnd.of_map f) hv]
  rfl

/-! ## The cluster loop -/

theorem listedClusterAlerts_nodup (c : String) (s : Store) : ((listedClusterAlerts c s).map (·.meta.key)).Nodup :=
  ((List.filter_sublist _).map _).nodup s.readOnly.clusterAlerts_nodup

theorem filter_listed_rule {c : String} {s : Store} {v : ClusterAlert} (hv : v ∈ listedClusterAlerts c s) :
    (listedClusterAlerts c s).filter (fun w => Kind.key .clusterAlertRule (newClusterRule c w) =
      (c, "migrate-" ++ v.meta.name)) = [v] := by
  have hns : ∀ w ∈ listedClusterAlerts c s, w.meta.ns = c := fun w hw => by
    simpa [listedClusterAlerts] using (List.mem_filter.1 hw).2
  rw [← filter_key_eq_singleton (listedClusterAlerts_nodup c s) hv]
  refine List.filter_congr fun w hw => ?_
  simp [Kind.key, Kind.meta, newClusterRule, ObjectMeta.named, ObjectMeta.key, hns w hw, hns v hv, String.ext_iff]

theorem filter_listed_group {c : String} {s : Store} {v : ClusterAlert} (hv : v ∈ listedClusterAlerts c s) :
    (listedClusterAlerts c s).filter (fun w => Kind.key .clusterAlertGroup (legacyClusterGroup c w) =
      (c, "migrate-group-" ++ v.meta.name)) = [v] := by
  have hns : ∀ w ∈ listedClusterAlerts c s, w.meta.ns = c := fun w hw => by
    simpa [listedClusterAlerts] using (List.mem_filter.1 hw).2
  rw [← filter_key_eq_singleton (listedClusterAlerts_nodup c s) hv]
  refine List.filter_congr fun w hw => ?_
  simp [Kind.key, Kind.meta, legacyClusterGroup, ObjectMeta.named, ObjectMeta.key, hns w hw, hns v hv,
    String.ext_iff]

theorem projectName_of_key {c : String} {w : ProjectAlert} (hw : objectInCluster c w = true) {κ : Key}
    {pre : String} (hκ : ((refParse w.spec.projectName).2, pre ++ w.meta.name) = κ) :
    w.spec.projectName = c ++ ":" ++ κ.1 := by
  rw [projectName_of_objectInCluster hw, ← hκ]

/-- The derived key of an in-cluster alert names its project and its name, and nothing else. -/
theorem projectKey_eq_iff {c pre : String} {v w : ProjectAlert} (hv : objectInCluster c v = true)
    (hw : objectInCluster c w = true) :
    ((refParse w.spec.projectName).2, pre ++ w.meta.name) = ((refParse v.spec.projectName).2, pre ++ v.meta.name) ↔
      w.spec.projectName = v.spec.projectName ∧ w.meta.name = v.meta.name := by
  constructor
  · intro h
    exact ⟨(projectName_of_key hw h).trans (projectName_of_objectInCluster hv).symm,
      by simpa [String.ext_iff] using (Prod.mk.inj h).2⟩
  · rintro ⟨h₁, h₂⟩
    rw [h₁, h₂]

theorem filter_projectPlan_rule (c : String) (order : MapOrder) (alerts : List ProjectAlert) (κ : Key) :
    (projectPlan c order alerts).filter (fun w =>
      Kind.key .projectAlertRule (newProjectRule w.spec.projectName (refParse w.spec.projectName).2 w) = κ) =
    (alerts.filter (objectInCluster c)).filter (fun w =>
      Kind.key .projectAlertRule (newProjectRule w.spec.projectName (refParse w.spec.projectName).2 w) = κ) :=
  filter_projectPlan order alerts fun _ _ hw hk => projectName_of_key hw (of_decide_eq_true hk)

theorem filter_projectPlan_group (c : String) (order : MapOrder) (alerts : List ProjectAlert) (κ : Key) :
    (projectPlan c order alerts).filter (fun w =>
      Kind.key .projectAlertGroup (legacyProjectGroup w.spec.projectName (refParse w.spec.projectName).2 w) = κ) =
    (alerts.filter (objectInCluster c)).filter (fun w =>
      Kind.key .projectAlertGroup (legacyProjectGroup w.spec.projectName (refParse w.spec.projectName).2 w) = κ) :=
  filter_projectPlan order alerts fun _ _ hw hk => projectName_of_key hw (of_decide_eq_true hk)

/-- The listed in-cluster alerts of `v`'s project ID and name, in listing order: those that migrate to `v`'s rule
and group. -/
def namesakes (clusterName : String) (alerts : List ProjectAlert) (v : ProjectAlert) : List ProjectAlert :=
  alerts.filter fun w =>
    objectInCluster clusterName w = true ∧ w.spec.projectName = v.spec.projectName ∧ w.meta.name = v.meta.name

theorem mem_namesakes {c : String} {alerts : List ProjectAlert} {v : ProjectAlert} (hv : v ∈ alerts)
    (hvc : objectInCluster c v = true) : v ∈ namesakes c alerts v := by
  simp [namesakes, hv, hvc]

/-- The alerts the loop writes at `v`'s rule key are its namesakes. -/
theorem filter_rule_namesakes {c : String} {alerts : List ProjectAlert} {v : ProjectAlert}
    (hv : objectInCluster c v = true) :
    (alerts.filter (objectInCluster c)).filter (fun w =>
      Kind.key .projectAlertRule (newProjectRule w.spec.projectName (refParse w.spec.projectName).2 w) =
        ((refParse v.spec.projectName).2, "migrate-rule-" ++ v.meta.name)) = namesakes c alerts v := by
  rw [List.filter_filter, namesakes]
  refine List.filter_congr fun w _ => ?_
  cases hw : objectInCluster c w
  · simp
  · have := @projectKey_eq_iff _ "migrate-rule-" _ _ hv hw
    simp only [Kind.key, Kind.meta, newProjectRule, ObjectMeta.named, ObjectMeta.key] at this ⊢
    simp [this]

theorem filter_group_namesakes {c : String} {alerts : List ProjectAlert} {v : ProjectAlert}
    (hv : objectInCluster c v = true) :
    (alerts.filter (objectInCluster c)).filter (fun w =>
      Kind.key .projectAlertGroup (legacyProjectGroup w.spec.projectName (refParse w.spec.projectName).2 w) =
        ((refParse v.spec.projectName).2, "migrate-group-" ++ v.meta.name)) = namesakes c alerts v := by
  rw [List.filter_filter, namesakes]
  refine List.filter_congr fun w _ => ?_
  cases hw : objectInCluster c w
  · simp
  · have := @projectKey_eq_iff _ "migrate-group-" _ _ hv hw
    simp only [Kind.key, Kind.meta, legacyProjectGroup, ObjectMeta.named, ObjectMeta.key] at this ⊢
    simp [this]

theorem projectName_of_mem_namesakes {c : String} {alerts : List ProjectAlert} {v w : ProjectAlert}
    (hw : w ∈ namesakes c alerts v) : w.spec.projectName = v.spec.projectName := by
  simp only [namesakes, List.mem_filter, decide_eq_true_eq] at hw
  exact hw.2.2.1

/-- What the project loop leaves at the rule key of a listed in-cluster alert `v`, over the rule `o` found there: the
translation of the last of its namesakes. -/
theorem lastRule_namesakes {c : String} {order : MapOrder} {alerts : List ProjectAlert} {v : ProjectAlert}
    (hv : v ∈ alerts) (hvc : objectInCluster c v = true) (o : Option (Kind.Obj .projectAlertRule)) :
    lastRule .projectAlertRule (fun w => newProjectRule w.spec.projectName (refParse w.spec.projectName).2 w)
        ((projectPlan c order alerts).filter fun w =>
          Kind.key .projectAlertRule (newProjectRule w.spec.projectName (refParse w.spec.projectName).2 w) =
            ((refParse v.spec.projectName).2, "migrate-rule-" ++ v.meta.name)) o =
      (namesakes c alerts v).getLast?.map (fun w =>
        Kind.upsertVal .projectAlertRule o (newProjectRule v.spec.projectName (refParse v.spec.projectName).2 w)) := by
  rw [filter_projectPlan_rule, filter_rule_namesakes hvc]
  obtain ⟨u, hu⟩ := Option.isSome_iff_exists.1 (List.getLast?_isSome.2 (List.ne_nil_of_mem (mem_namesakes hv hvc)))
  simp only [lastRule, hu, Option.elim, Option.map_some',
    projectName_of_mem_namesakes (List.mem_of_getLast?_eq_some hu)]

/-- A run of `migrateLegacyProjectAlert` that returns `nil` leaves, for every listed in-cluster alert `v`, at `v`'s
rule key the translation of the last of its namesakes upserted over the old rule, and at its group key the old group
or else the group of the first namesake; two in-cluster alerts share these keys exactly when they share project ID
and name. -/
theorem migrateLegacyProjectAlert_migrates (E : AlertService) (order : MapOrder) (s : Store) :
    wp (migrateLegacyProjectAlert E order) (fun out s' _ => out = .returned none →
      ∀ v ∈ s.readOnly.projectAlerts, objectInCluster E.clusterName v = true →
        (s'.tables .projectAlertRule).get ((refParse v.spec.projectName).2, "migrate-rule-" ++ v.meta.name) =
          (namesakes E.clusterName s.readOnly.projectAlerts v).getLast?.map (fun w =>
            Kind.upsertVal .projectAlertRule
              ((s.tables .projectAlertRule).get ((refParse v.spec.projectName).2, "migrate-rule-" ++ v.meta.name))
              (newProjectRule v.spec.projectName (refParse v.spec.projectName).2 w)) ∧
        (s'.tables .projectAlertGroup).get ((refParse v.spec.projectName).2, "migrate-group-" ++ v.meta.name) =
          ((s.tables .projectAlertGroup).get ((refParse v.spec.projectName).2, "migrate-group-" ++ v.meta.name)).orElse
            (fun _ => (namesakes E.clusterName s.readOnly.projectAlerts v).head?.map
              (legacyProjectGroup v.spec.projectName (refParse v.spec.projectName).2)) ∧
        ∀ w ∈ s.readOnly.projectAlerts, objectInCluster E.clusterName w = true →
          (((refParse w.spec.projectName).2, "migrate-rule-" ++ w.meta.name) =
              ((refParse v.spec.projectName).2, "migrate-rule-" ++ v.meta.name) ↔
            w.spec.projectName = v.spec.projectName ∧ w.meta.name = v.meta.name)) s := by
  refine wp_mono (migrateLegacyProjectAlert_wp E order s) ?_
  rintro out s' - (⟨-, rfl⟩ | ⟨hne, -⟩) hout v hv hvc
  swap
  · exact absurd hout hne
  refine ⟨?_, ?_, fun w _ hwc => projectKey_eq_iff hvc hwc⟩
  · rw [get_foldl_fresh newProjectRule_fresh projectStep_rule, lastRule_namesakes hv hvc]
  · rw [get_foldl_ensure projectStep_group, filter_projectPlan_group, filter_group_namesakes hvc, firstGroup]
    cases hu : (namesakes E.clusterName s.readOnly.projectAlerts v).head? with
    | none => rfl
    | some u => rw [Option.map_some', Option.map_some', projectName_of_mem_namesakes (List.mem_of_mem_head? hu)]

/-- A service of cluster `c`; the settings and helpers it names are not reached by the migration. -/
def namesakeService : AlertService where
  clusterName := "c"
  systemMonitoringCatalogID := ""
  splitExternalID _ := .error ""
  parseExternalID _ := .error ""
  appName := ""
  systemProjectLabel := []

/-- A legacy alert `x` of project `c:p`, stored in namespace `ns`. -/
def namesakeAlert (ns displayName : String) : ProjectAlert where
  meta := ⟨"x", ns, [], []⟩
  spec :=
    { projectName := "c:p", displayName := displayName, severity := "critical", recipients := [],
      initialWaitSeconds := 180, repeatIntervalSeconds := 3600, targetPod := none, targetWorkload := none }

/-- Two legacy alerts named `x` of project `c:p` in two namespaces, and no rule or group yet. -/
def namesakeStore : Store where
  readOnly :=
    { clusterAlerts := [], projectAlerts := [namesakeAlert "n1" "one", namesakeAlert "n2" "two"], projects := [],
      clusters := fun _ => none, catalogs := fun _ => none, templates := fun _ => none,
      clusterAlerts_nodup := List.nodup_nil, projectAlerts_nodup := by decide }
  tables _ := Table.empty
  namespaces _ := false

/-- The run returns `nil`, yet the rule of the listed in-cluster alert in `n1` does not hold its translation: the alert
in `n2` overwrote it. -/
theorem migrateLegacyProjectAlert_overwrites_namesake :
    ((migrateLegacyProjectAlert namesakeService MapOrder.listing).exec namesakeStore).1 = .returned none ∧
    namesakeAlert "n1" "one" ∈ namesakeStore.readOnly.projectAlerts ∧
    objectInCluster namesakeService.clusterName (namesakeAlert "n1" "one") = true ∧
    Option.map (·.spec) ((((migrateLegacyProjectAlert namesakeService MapOrder.listing).exec namesakeStore).2.tables
        .projectAlertRule).get ("p", "migrate-rule-x")) ≠ some (newProjectRule "c:p" "p" (namesakeAlert "n1" "one")).spec := by
  decide

/-! ## Independence of the map order -/

/-- With every call answered, `migrateLegacyProjectAlert` returns the same and leaves the same store whatever order
the `range` over `oldProjectAlertGroup` takes. -/
theorem migrateLegacyProjectAlert_order_independent (E : AlertService) (order₁ order₂ : MapOrder) (s : Store) :
    (migrateLegacyProjectAlert E order₁).exec s = (migrateLegacyProjectAlert E order₂).exec s := by
  rw [migrateLegacyProjectAlert_exec, migrateLegacyProjectAlert_exec]
  congr 1
  refine Store.ext_get ?_ ?_ fun k κ => ?_
  · rw [foldl_eq_of_step Store.readOnly (projectStep_readOnly · ·), foldl_eq_of_step Store.readOnly (projectStep_readOnly · ·)]
  · rw [foldl_eq_of_step Store.namespaces (projectStep_namespaces · ·),
      foldl_eq_of_step Store.namespaces (projectStep_namespaces · ·)]
  · cases k with
    | projectAlertRule =>
      rw [get_foldl_fresh newProjectRule_fresh projectStep_rule, get_foldl_fresh newProjectRule_fresh projectStep_rule,
        filter_projectPlan_rule, filter_projectPlan_rule]
    | projectAlertGroup =>
      rw [get_foldl_ensure projectStep_group, get_foldl_ensure projectStep_group, filter_projectPlan_group,
        filter_projectPlan_group]
    | _ => rw [projectFold_tables_of_ne (by decide) (by decide), projectFold_tables_of_ne (by decide) (by decide)]

end AlertUpgrade
