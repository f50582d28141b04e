import AlertUpgrade.Prog

/-!
# `upgradeimpl.go`

`AlertService.Upgrade` and the functions it calls, written in `Prog` so that each Go statement that touches the store
is one `Prog.lift` of a `Call`. The loops over the legacy alerts are `forEach`, which stops at the first error as the
Go `return fmt.Errorf(...)` inside the loop does; the range over the Go map `oldProjectAlertGroup` visits its entries
in an order `MapOrder` chooses, any permutation.

The two migration loops share their rule step (`migrateRule`): fetch the rule of the derived name, create it when
absent (a racing `AlreadyExists` is success), otherwise overwrite the fetched rule's spec and update it. They differ
in the group step: a failed cluster group create returns an error naming the group, while a failed project group
create names the object the client returned beside the error: the fresh, empty object of a generated client (as the
vendored `ReplicationControllerClient.Create` returns), or a `nil` pointer, through which the message panics.

The helpers of other packages are fields of `AlertService` (`common.SplitExternalID`, `common.ParseExternalID`, the
settings value, the app name) or are modelled from the spec (`getGroupID`, `refParse`, `objectInCluster`).
-/

namespace AlertUpgrade

/-- `defaultGroupIntervalSeconds`. -/
def defaultGroupIntervalSeconds : Int := 180

/-- Modelled from the spec: `alertutil.GetGroupID`, not in the repository, forms the composite group identifier
`scope:group` of the group a rule belongs to. -/
def getGroupID (ns name : String) : String := ns ++ ":" ++ name

/-- Modelled from the spec: `ref.Parse`, not in the repository, splits a reference `namespace:name` at its first
colon; a reference without a colon is a bare name. -/
def refParse (s : String) : String × String :=
  match s.toList.span (· ≠ ':') with
  | (ns, _ :: name) => (String.mk ns, String.mk name)
  | (_, []) => ("", s)

/-- Modelled from the spec: `controller.ObjectInCluster`, not in the repository: a project alert belongs to the
cluster its project ID `cluster:project` names. -/
def objectInCluster (clusterName : String) (v : ProjectAlert) : Bool :=
  match v.spec.projectName.toList.span (· ≠ ':') with
  | (c, _ :: _) => String.mk c == clusterName
  | (_, []) => false

/-- `strings.Contains`. -/
def stringsContains (s substr : String) : Bool :=
  s.toList.tails.any (substr.toList.isPrefixOf ·)

/-- The Go runtime's message for a write into a `nil` map. -/
def assignmentToNilMap : String := "assignment to entry in nil map"

/-- The Go runtime's message for a field read through a `nil` pointer. -/
def nilDereference : String := "runtime error: invalid memory address or nil pointer dereference"

/-- `AlertService`: the cluster it serves, and what it takes from packages outside the repository. -/
structure AlertService where
  clusterName : String
  /-- `settings.SystemMonitoringCatalogID.Get()`. -/
  systemMonitoringCatalogID : String
  /-- `common.SplitExternalID`. -/
  splitExternalID : String → Except String (String × String × String × String × String)
  /-- `common.ParseExternalID`. -/
  parseExternalID : String → Except String (String × String)
  /-- The app name `monitorutil.ClusterAlertManagerInfo()` returns. -/
  appName : String
  /-- `systemProjectLabel`. -/
  systemProjectLabel : List (String × String)

/-- The order in which a `range` over a Go map visits its entries: unspecified, so any permutation. -/
structure MapOrder where
  visit : List (String × List ProjectAlert) → List (String × List ProjectAlert)
  perm : ∀ m, (visit m).Perm m

/-- The order in which the map's entries were first inserted. -/
def MapOrder.listing : MapOrder := ⟨id, fun _ => List.Perm.refl _⟩

/-! ## The translations -/

/-- `newClusterRule` of `migrateLegacyClusterAlert`. -/
def newClusterRule (clusterName : String) (v : ClusterAlert) : ClusterAlertRule where
  meta := .named clusterName ("migrate-" ++ v.meta.name)
  spec :=
    { clusterName := clusterName
      groupName := getGroupID clusterName ("migrate-group-" ++ v.meta.name)
      commonRuleField :=
        { displayName := v.spec.displayName
          severity := v.spec.severity
          timingField := ⟨v.spec.initialWaitSeconds, defaultGroupIntervalSeconds, v.spec.repeatIntervalSeconds⟩ }
      nodeRule := v.spec.targetNode.map fun t =>
        ⟨t.nodeName, t.selector, t.condition, t.memThreshold, t.cpuThreshold⟩
      eventRule := v.spec.targetEvent.map fun t => ⟨t.eventType, t.resourceKind⟩
      systemServiceRule := v.spec.targetSystemService.map fun t => ⟨t.condition⟩ }

/-- `legacyGroup` of `migrateLegacyClusterAlert`. -/
def legacyClusterGroup (clusterName : String) (v : ClusterAlert) : ClusterAlertGroup where
  meta := .named clusterName ("migrate-group-" ++ v.meta.name)
  spec :=
    { clusterName := clusterName
      commonGroupField :=
        { displayName := "Migrate group"
          description := "Migrate alert from last version"
          timingField := ⟨v.spec.initialWaitSeconds, defaultGroupIntervalSeconds, v.spec.repeatIntervalSeconds⟩ }
      recipients := v.spec.recipients }

/-- `newProjectRule` of `migrateLegacyProjectAlert`. -/
def newProjectRule (projectID projectName : String) (v : ProjectAlert) : ProjectAlertRule where
  meta := .named projectName ("migrate-rule-" ++ v.meta.name)
  spec :=
    { projectName := projectID
      groupName := getGroupID projectName ("migrate-group-" ++ v.meta.name)
      commonRuleField :=
        { displayName := v.spec.displayName
          severity := v.spec.severity
          timingField := ⟨v.spec.initialWaitSeconds, defaultGroupIntervalSeconds, v.spec.repeatIntervalSeconds⟩ }
      podRule := v.spec.targetPod.map fun t => ⟨t.podName, t.condition, t.restartTimes, t.restartIntervalSeconds⟩
      workloadRule := v.spec.targetWorkload.map fun t => ⟨t.workloadID, t.selector, t.availablePercentage⟩ }

/-- `legacyGroup` of `migrateLegacyProjectAlert`. -/
def legacyProjectGroup (projectID projectName : String) (v : ProjectAlert) : ProjectAlertGroup where
  meta := .named projectName ("migrate-group-" ++ v.meta.name)
  spec :=
    { projectName := projectID
      commonGroupField :=
        { displayName := "Migrate group"
          description := "Migrate alert from last version"
          timingField := ⟨v.spec.initialWaitSeconds, defaultGroupIntervalSeconds, v.spec.repeatIntervalSeconds⟩ }
      recipients := v.spec.recipients }

/-- `updated := old.DeepCopy(); updated.Spec = new.Spec`: the fetched object with the spec of the new one. -/
def Kind.withSpec : (k : Kind) → k.Obj → k.Obj → k.Obj
  | .clusterAlertRule, old, new => ClusterAlertRule.mk (ClusterAlertRule.meta old) (ClusterAlertRule.spec new)
  | .clusterAlertGroup, old, new => ClusterAlertGroup.mk (ClusterAlertGroup.meta old) (ClusterAlertGroup.spec new)
  | .projectAlertRule, old, new => ProjectAlertRule.mk (ProjectAlertRule.meta old) (ProjectAlertRule.spec new)
  | .projectAlertGroup, old, new => ProjectAlertGroup.mk (ProjectAlertGroup.meta old) (ProjectAlertGroup.spec new)
  | .app, old, new => App.mk (App.meta old) (App.spec new)

/-! ## The migration loops -/

/-- A `for ... range` loop whose body may `return` an error, which leaves the function. -/
def forEach {β : Type} (body : β → Prog (Option String)) : List β → Prog (Option String)
  | [] => return none
  | v :: vs => do
    match ← body v with
    | some err => return some err
    | none => forEach body vs

/-- The rule step of both migration loops, for the legacy alert with metadata `v`. -/
def migrateRule (k : Kind) (newRule : k.Obj) (v : ObjectMeta) :
    Prog (Option String) := do
  let failed := fun (what : String) (err : ApiError) =>
    some ("migrate " ++ v.ns ++ ":" ++ v.name ++ " failed, " ++ what ++ " alert rule failed, " ++ err.message)
  match ← Prog.lift (.get k (k.key newRule)) with
  | .error err =>
    if !err.isNotFound then return failed "get" err
    else
      match ← Prog.lift (.create k newRule) with
      | .error err => if !err.isAlreadyExists then return failed "create" err else return none
      | .ok _ => return none
  | .ok oldRule =>
    match ← Prog.lift (.update k (k.withSpec oldRule newRule)) with
    | .error err => return failed "update" err
    | .ok _ => return none

/-- The body of the loop of `migrateLegacyClusterAlert`. -/
def migrateClusterAlert (clusterName : String) (v : ClusterAlert) : Prog (Option String) := do
  match ← migrateRule .clusterAlertRule (newClusterRule clusterName v) v.meta with
  | some err => return some err
  | none =>
    match ← Prog.lift (.create .clusterAlertGroup (legacyClusterGroup clusterName v)) with
    | .error err =>
      if !err.isAlreadyExists then
        return some ("migrate failed, create alert group " ++ clusterName ++ ":" ++ "migrate-group-" ++
          v.meta.name ++ " failed, " ++ err.message)
      else return none
    | .ok _ => return none

def migrateLegacyClusterAlert (E : AlertService) : Prog (Option String) := do
  match ← Prog.lift (.clusterAlertsList E.clusterName) with
  | .error err => return some ("get old cluster alert failed, " ++ err.message)
  | .ok oldClusterAlert => forEach (migrateClusterAlert E.clusterName) oldClusterAlert

/-- The body of the inner loop of `migrateLegacyProjectAlert`. -/
def migrateProjectAlert (projectID projectName : String) (v : ProjectAlert) : Prog (Option String) := do
  match ← migrateRule .projectAlertRule (newProjectRule projectID projectName v) v.meta with
  | some err => return some err
  | none =>
    match ← Prog.lift (.create .projectAlertGroup (legacyProjectGroup projectID projectName v)) with
    | .error err =>
      if !err.isAlreadyExists then
        -- `legacyGroup, err = Create(legacyGroup)`: the message reads the object the client returned
        match err.returned with
        | none => Prog.panic nilDereference
        | some legacyGroup =>
          return some ("create migrate alert group " ++ legacyGroup.ns ++ ":" ++ legacyGroup.name ++ " failed, " ++
            err.message)
      else return none
    | .ok _ => return none

/-- `oldProjectAlertGroup[v.Spec.ProjectName] = append(oldProjectAlertGroup[v.Spec.ProjectName], v)`. -/
def appendToBucket (v : ProjectAlert) : List (String × List ProjectAlert) → List (String × List ProjectAlert)
  | [] => [(v.spec.projectName, [v])]
  | (pid, vs) :: rest =>
    if pid = v.spec.projectName then (pid, vs ++ [v]) :: rest else (pid, vs) :: appendToBucket v rest

/-- `oldProjectAlertGroup`: the in-cluster alerts by project ID, in order of first appearance. -/
def groupByProject (clusterName : String) (alerts : List ProjectAlert) : List (String × List ProjectAlert) :=
  alerts.foldl (fun m v => if objectInCluster clusterName v then appendToBucket v m else m) []

/-- The body of the outer loop of `migrateLegacyProjectAlert`, for one entry of `oldProjectAlertGroup`. -/
def migrateProjectBucket (entry : String × List ProjectAlert) : Prog (Option String) :=
  forEach (migrateProjectAlert entry.1 (refParse entry.1).2) entry.2

def migrateLegacyProjectAlert (E : AlertService) (order : MapOrder) : Prog (Option String) := do
  match ← Prog.lift .projectAlertsList with
  | .error err => return some ("get old project alert failed, " ++ err.message)
  | .ok oldProjectAlert =>
    forEach migrateProjectBucket (order.visit (groupByProject E.clusterName oldProjectAlert))

def removeLegacyAlerting : Prog (Option String) := do
  let legacyAlertmanagerNamespace := "cattle-alerting"
  match ← Prog.lift (.namespaceDelete legacyAlertmanagerNamespace) with
  | .error err =>
    if !err.isNotFound then return some ("failed to remove legacy alerting namespace when upgrade: " ++ err.message)
    else return none
  | .ok _ => return none

/-! ## `Upgrade` -/

/-- The marker of a current version that already runs the new alerting. -/
def monitoringMarker : String := "system-library-rancher-monitoring"

/-- The `//migrate legacy` block of `Upgrade`. -/
def migrateLegacy (E : AlertService) (order : MapOrder) (currentVersion : String) : Prog (Option String) :=
  if !stringsContains currentVersion monitoringMarker then do
    match ← migrateLegacyClusterAlert E with
    | some err => return some err
    | none =>
      match ← migrateLegacyProjectAlert E order with
      | some err => return some err
      | none => removeLegacyAlerting
  else return none

/-- `newApp := app.DeepCopy(); newApp.Spec.ExternalID = newExternalID; newApp.Spec.Answers["operator.enabled"] =
"false"`, or `none` when the answers map is `nil` and the write panics. -/
def newApp (newExternalID : String) (app : App) : Option App :=
  app.spec.answers.map fun answers =>
    { app with spec := { app.spec with externalID := newExternalID,
                                       answers := some (answers.insert "operator.enabled" "false") } }

/-- The `//upgrade old app` block of `Upgrade`. -/
def upgradeApp (E : AlertService) (systemCatalogName newExternalID newVersion : String) :
    Prog (Except String String) := do
  match ← Prog.lift (.projectsList E.systemProjectLabel) with
  | .error err => return .error ("list system project failed, " ++ err.message)
  | .ok [] => return .error "get system project failed"
  | .ok (none :: _) => return .error "get system project failed"
  | .ok (some systemProject :: _) =>
    match ← Prog.lift (.get .app (systemProject.name, E.appName)) with
    | .error err =>
      if err.isNotFound then return .ok newVersion
      else return .error ("get app " ++ systemProject.name ++ ":" ++ E.appName ++ " failed, " ++ err.message)
    | .ok app =>
      match newApp newExternalID app with
      | none => Prog.panic assignmentToNilMap
      | some newApp =>
        if newApp = app then return .ok newVersion
        else
          -- check cluster ready before upgrade, because helm will not retry if got cluster not ready error
          match ← Prog.lift (.clusterGet E.clusterName) with
          | .error err => return .error ("get cluster " ++ E.clusterName ++ " failed, " ++ err.message)
          | .ok cluster =>
            if !cluster.ready then return .error ("cluster " ++ E.clusterName ++ " not ready")
            else
              match ← Prog.lift (.catalogGet systemCatalogName) with
              | .error err => return .error ("get catalog " ++ systemCatalogName ++ " failed, " ++ err.message)
              | .ok systemCatalog =>
                if !systemCatalog.upgraded || !systemCatalog.refreshed || !systemCatalog.diskCached then
                  return .error ("catalog " ++ systemCatalogName ++ " not ready")
                else
                  match ← Prog.lift (.update .app newApp) with
                  | .error err =>
                    return .error ("update app " ++ app.meta.ns ++ ":" ++ app.meta.name ++ " failed, " ++
                      err.message)
                  | .ok _ => return .ok newVersion

/-- The first block of `Upgrade`, up to `ParseExternalID`: the system catalog's name, the new external ID and the new
version, or the error `Upgrade` returns. -/
def upgradeTarget (E : AlertService) : Prog (Except String (String × String × String)) := do
  match E.splitExternalID E.systemMonitoringCatalogID with
  | .error err => return .error err
  | .ok (templateVersionNamespace, systemCatalogName, _, templateName, _) =>
    let templateID := systemCatalogName ++ "-" ++ templateName
    match ← Prog.lift (.templateGet (templateVersionNamespace, templateID)) with
    | .error err => return .error ("get template " ++ templateID ++ " failed: " ++ err.message)
    | .ok template =>
      let newExternalID := "catalog://?catalog=" ++ systemCatalogName ++ "&template=" ++ templateName ++
        "&version=" ++ template.defaultVersion
      match E.parseExternalID newExternalID with
      | .error err => return .error err
      | .ok (newVersion, _) => return .ok (systemCatalogName, newExternalID, newVersion)

/-- `AlertService.Upgrade`. -/
def upgrade (E : AlertService) (order : MapOrder) (currentVersion : String) : Prog (Except String String) := do
  match ← upgradeTarget E with
  | .error err => return .error err
  | .ok (systemCatalogName, newExternalID, newVersion) =>
    match ← migrateLegacy E order currentVersion with
    | some err => return .error err
    | none => upgradeApp E systemCatalogName newExternalID newVersion

/-- `AlertService.Version`. -/
def version (E : AlertService) : Except String String :=
  match E.parseExternalID E.systemMonitoringCatalogID with
  | .error err => .error ("get system monitor catalog version failed, " ++ err)
  | .ok (templateVersionID, _) => .ok templateVersionID

end AlertUpgrade
