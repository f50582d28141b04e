import Mathlib.Data.Finmap

/-!
# The records the upgrade reads and writes

The legacy alerts (`ClusterAlert`, `ProjectAlert`), the rules and groups that replace them, the monitoring `App`
and the read-only records consulted before the app is touched (`Cluster`, `Catalog`, `CatalogTemplate`,
`Project`), with the fields of the `v3` and `projectv3` types that `upgradeimpl.go` reads, copies or writes.

A Go `map[string]string` that the code writes into is a `StringMap` (a finite map, so that equality is the
extensional equality of `reflect.DeepEqual`); a map that may be `nil` is an `Option StringMap`. Go `int` fields
are only copied, so they are `Int`. An API error carries the reason the `apierrors.IsNotFound` and
`apierrors.IsAlreadyExists` tests look at, the text `%v` prints, and the object the client returns beside it, which
the project group create reads.
-/

namespace AlertUpgrade

/-- A `(namespace, name)` pair: the key of a namespaced object. -/
abbrev Key := String × String

/-- A Go `map[string]string`. -/
abbrev StringMap := Finmap (fun _ : String => String)

/-- `metav1.ObjectMeta`: the key fields and the free-form metadata an update carries over. -/
structure ObjectMeta where
  name : String
  ns : String
  labels : List (String × String)
  annotations : List (String × String)
  deriving DecidableEq, Repr

/-- The key an object is stored under. -/
def ObjectMeta.key (m : ObjectMeta) : Key := (m.ns, m.name)

/-- The metadata of a freshly built object: `metav1.ObjectMeta{Name: name, Namespace: ns}`. -/
def ObjectMeta.named (ns name : String) : ObjectMeta := ⟨name, ns, [], []⟩

/-! ## Legacy alerts -/

/-- `v3.Recipient`, copied verbatim from a legacy alert to its migration group. -/
structure Recipient where
  recipient : String
  notifierName : String
  notifierType : String
  deriving DecidableEq, Repr

structure TargetNode where
  nodeName : String
  selector : List (String × String)
  condition : String
  memThreshold : Int
  cpuThreshold : Int
  deriving DecidableEq, Repr

structure TargetEvent where
  eventType : String
  resourceKind : String
  deriving DecidableEq, Repr

structure TargetSystemService where
  condition : String
  deriving DecidableEq, Repr

structure TargetPod where
  podName : String
  condition : String
  restartTimes : Int
  restartIntervalSeconds : Int
  deriving DecidableEq, Repr

structure TargetWorkload where
  workloadID : String
  selector : List (String × String)
  availablePercentage : Int
  deriving DecidableEq, Repr

/-- `v3.ClusterAlertSpec`: `AlertCommonSpec` and the three cluster targets. -/
structure ClusterAlertSpec where
  displayName : String
  severity : String
  recipients : List Recipient
  initialWaitSeconds : Int
  repeatIntervalSeconds : Int
  targetNode : Option TargetNode
  targetEvent : Option TargetEvent
  targetSystemService : Option TargetSystemService
  deriving DecidableEq, Repr

structure ClusterAlert where
  meta : ObjectMeta
  spec : ClusterAlertSpec
  deriving DecidableEq, Repr

/-- `v3.ProjectAlertSpec`: `AlertCommonSpec`, the owning project and the two project targets. -/
structure ProjectAlertSpec where
  projectName : String
  displayName : String
  severity : String
  recipients : List Recipient
  initialWaitSeconds : Int
  repeatIntervalSeconds : Int
  targetPod : Option TargetPod
  targetWorkload : Option TargetWorkload
  deriving DecidableEq, Repr

structure ProjectAlert where
  meta : ObjectMeta
  spec : ProjectAlertSpec
  deriving DecidableEq, Repr

/-! ## Rules and groups -/

structure TimingField where
  groupWaitSeconds : Int
  groupIntervalSeconds : Int
  repeatIntervalSeconds : Int
  deriving DecidableEq, Repr

structure CommonRuleField where
  displayName : String
  severity : String
  timingField : TimingField
  deriving DecidableEq, Repr

structure NodeRule where
  nodeName : String
  selector : List (String × String)
  condition : String
  memThreshold : Int
  cpuThreshold : Int
  deriving DecidableEq, Repr

structure EventRule where
  eventType : String
  resourceKind : String
  deriving DecidableEq, Repr

structure SystemServiceRule where
  condition : String
  deriving DecidableEq, Repr

structure PodRule where
  podName : String
  condition : String
  restartTimes : Int
  restartIntervalSeconds : Int
  deriving DecidableEq, Repr

structure WorkloadRule where
  workloadID : String
  selector : List (String × String)
  availablePercentage : Int
  deriving DecidableEq, Repr

structure ClusterAlertRuleSpec where
  clusterName : String
  groupName : String
  commonRuleField : CommonRuleField
  nodeRule : Option NodeRule
  eventRule : Option EventRule
  systemServiceRule : Option SystemServiceRule
  deriving DecidableEq, Repr

structure ClusterAlertRule where
  meta : ObjectMeta
  spec : ClusterAlertRuleSpec
  deriving DecidableEq, Repr

structure ProjectAlertRuleSpec where
  projectName : String
  groupName : String
  commonRuleField : CommonRuleField
  podRule : Option PodRule
  workloadRule : Option WorkloadRule
  deriving DecidableEq, Repr

structure ProjectAlertRule where
  meta : ObjectMeta
  spec : ProjectAlertRuleSpec
  deriving DecidableEq, Repr

structure CommonGroupField where
  displayName : String
  description : String
  timingField : TimingField
  deriving DecidableEq, Repr

structure ClusterGroupSpec where
  clusterName : String
  commonGroupField : CommonGroupField
  recipients : List Recipient
  deriving DecidableEq, Repr

structure ClusterAlertGroup where
  meta : ObjectMeta
  spec : ClusterGroupSpec
  deriving DecidableEq, Repr

structure ProjectGroupSpec where
  projectName : String
  commonGroupField : CommonGroupField
  recipients : List Recipient
  deriving DecidableEq, Repr

structure ProjectAlertGroup where
  meta : ObjectMeta
  spec : ProjectGroupSpec
  deriving DecidableEq, Repr

/-! ## The app and the records of the readiness gate -/

/-- `projectv3.AppSpec`: the external reference, the answers (a map that may be `nil`), and two of the fields the
upgrade copies without looking at. -/
structure AppSpec where
  projectName : String
  targetNamespace : String
  externalID : String
  answers : Option StringMap
  deriving DecidableEq

structure App where
  meta : ObjectMeta
  spec : AppSpec
  deriving DecidableEq

/-- A cluster, as far as `v3.ClusterConditionReady.IsTrue` sees it. -/
structure Cluster where
  ready : Bool
  deriving DecidableEq, Repr

/-- A catalog, as far as the three catalog conditions the gate tests see it. -/
structure Catalog where
  upgraded : Bool
  refreshed : Bool
  diskCached : Bool
  deriving DecidableEq, Repr

structure CatalogTemplate where
  defaultVersion : String
  deriving DecidableEq, Repr

structure Project where
  name : String
  labels : List (String × String)
  deriving DecidableEq, Repr

/-! ## Store errors -/

/-- The reasons `apierrors` distinguishes; every other failure is `other`. -/
inductive StatusReason where
  | notFound
  | alreadyExists
  | other
  deriving DecidableEq, Repr

/-- The error a client call returns, with the object the client returns beside it (Go's `(obj, err)`), as far as the
code reads that object: its metadata, or `none` for a `nil` pointer. -/
structure ApiError where
  reason : StatusReason
  message : String
  returned : Option ObjectMeta
  deriving DecidableEq, Repr

/-- `apierrors.IsNotFound`. -/
def ApiError.isNotFound (e : ApiError) : Bool := e.reason == .notFound

/-- `apierrors.IsAlreadyExists`. -/
def ApiError.isAlreadyExists (e : ApiError) : Bool := e.reason == .alreadyExists

/-- `apierrors.NewNotFound(resource, name)`, whose text is `<resource> "<name>" not found` (`%q` of a name with no
character to escape). The code never reads the object beside a store's own error, so none is given. -/
def ApiError.notFound (resource name : String) : ApiError :=
  ⟨.notFound, resource ++ " \"" ++ name ++ "\" not found", none⟩

/-- `apierrors.NewAlreadyExists(resource, name)`. -/
def ApiError.alreadyExists (resource name : String) : ApiError :=
  ⟨.alreadyExists, resource ++ " \"" ++ name ++ "\" already exists", none⟩

/-- A failure of the store that the code does not expect (a timeout, a refused connection, a conflict): its text,
and the object the client returns beside the error, `none` for a `nil` pointer. -/
structure Failure where
  message : String
  returned : Option ObjectMeta
  deriving DecidableEq, Repr

def ApiError.unexpected (f : Failure) : ApiError := ⟨.other, f.message, f.returned⟩

@[simp] theorem ApiError.notFound_isNotFound (res n : String) : (ApiError.notFound res n).isNotFound = true := rfl

@[simp] theorem ApiError.alreadyExists_isAlreadyExists (res n : String) :
    (ApiError.alreadyExists res n).isAlreadyExists = true := rfl

@[simp] theorem ApiError.unexpected_isNotFound (f : Failure) : (ApiError.unexpected f).isNotFound = false := rfl

@[simp] theorem ApiError.unexpected_isAlreadyExists (f : Failure) :
    (ApiError.unexpected f).isAlreadyExists = false := rfl

end AlertUpgrade
