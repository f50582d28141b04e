import AlertUpgrade.Records

/-!
# The resource store and its calls

The store holds everything `AlertService` reaches through its clients and listers. The five kinds of object the
upgrade writes (cluster and project alert rules and groups, apps) live in namespaced `Table`s: partial maps from
`(namespace, name)` to objects, each object stored under its own key (`Table.get_key`), so that an `Update` of a
fetched object writes back where it was read. The legacy alerts, which the upgrade only lists, are lists in listing
order with pairwise distinct keys.

`Call` lists the store calls `upgradeimpl.go` makes; `Store.answer` gives the store's reply and the store after it,
with the error semantics of the Kubernetes API: a `Get` of an absent key is `NotFound`, a `Create` of a present key is
`AlreadyExists` and writes nothing, an `Update` of an absent key is `NotFound`, a `Delete` of an absent namespace is
`NotFound`, each with the text `apierrors` gives it. A namespace is deleted at once: the model has no `Terminating`
phase. `Store.respond` adds the failures the code does not expect: a call may instead fail with any message and
any object beside the error, and then writes nothing.
-/

namespace AlertUpgrade

/-! ## Tables -/

/-- A namespaced table: every stored object sits under its own key. -/
structure Table (R : Type) (key : R → Key) where
  get : Key → Option R
  get_key : ∀ {k r}, get k = some r → key r = k

namespace Table

variable {R : Type} {key : R → Key}

@[ext] theorem ext {t₁ t₂ : Table R key} (h : t₁.get = t₂.get) : t₁ = t₂ := by
  cases t₁; cases t₂; cases h; rfl

/-- Store `r` under its key. -/
def insert (t : Table R key) (r : R) : Table R key where
  get := Function.update t.get (key r) (some r)
  get_key := by
    intro k x h
    by_cases hk : k = key r
    · subst hk
      simp only [Function.update_same, Option.some.injEq] at h
      exact h ▸ rfl
    · rw [Function.update_noteq hk] at h
      exact t.get_key h

@[simp] theorem insert_get (t : Table R key) (r : R) (k : Key) :
    (t.insert r).get k = if k = key r then some r else t.get k := by
  simp only [insert, Function.update_apply]

/-- The table with no object. -/
def empty : Table R key := ⟨fun _ => none, fun h => by cases h⟩

/-- `Get`, of an object of the API resource `resource`. -/
def getE (t : Table R key) (resource : String) (k : Key) : Except ApiError R :=
  match t.get k with
  | some r => .ok r
  | none => .error (.notFound resource k.2)

end Table

/-! ## The written kinds -/

/-- The kinds of object the upgrade writes. -/
inductive Kind where
  | clusterAlertRule
  | clusterAlertGroup
  | projectAlertRule
  | projectAlertGroup
  | app
  deriving DecidableEq, Repr

namespace Kind

def Obj : Kind → Type
  | clusterAlertRule => ClusterAlertRule
  | clusterAlertGroup => ClusterAlertGroup
  | projectAlertRule => ProjectAlertRule
  | projectAlertGroup => ProjectAlertGroup
  | app => App

def meta : (k : Kind) → k.Obj → ObjectMeta
  | clusterAlertRule, r => ClusterAlertRule.meta r
  | clusterAlertGroup, g => ClusterAlertGroup.meta g
  | projectAlertRule, r => ProjectAlertRule.meta r
  | projectAlertGroup, g => ProjectAlertGroup.meta g
  | app, a => App.meta a

/-- The key an object of kind `k` is stored under. -/
def key (k : Kind) (r : k.Obj) : Key := (k.meta r).key

/-- The API resource, `<plural>.<group>`, that the API server names in its errors about an object of kind `k`. -/
def resource : Kind → String
  | clusterAlertRule => "clusteralertrules.management.cattle.io"
  | clusterAlertGroup => "clusteralertgroups.management.cattle.io"
  | projectAlertRule => "projectalertrules.management.cattle.io"
  | projectAlertGroup => "projectalertgroups.management.cattle.io"
  | app => "apps.project.cattle.io"

end Kind

/-! ## The store -/

/-- A label selector built from a label set matches the objects that carry every pair of the set. -/
def labelsMatch (selector labels : List (String × String)) : Bool :=
  selector.all fun kv => labels.lookup kv.1 == some kv.2

/-- The part of the store the upgrade only reads: the legacy alerts (in listing order, pairwise distinct keys) and
what the listers return. -/
structure ReadOnly where
  clusterAlerts : List ClusterAlert
  projectAlerts : List ProjectAlert
  projects : List Project
  clusters : String → Option Cluster
  catalogs : String → Option Catalog
  templates : Key → Option CatalogTemplate
  clusterAlerts_nodup : (clusterAlerts.map (·.meta.key)).Nodup
  projectAlerts_nodup : (projectAlerts.map (·.meta.key)).Nodup

structure Store where
  readOnly : ReadOnly
  tables : (k : Kind) → Table k.Obj k.key
  namespaces : String → Bool

/-- The store calls of `upgradeimpl.go`, with their arguments. -/
inductive Call where
  | templateGet (key : Key)
  | clusterAlertsList (ns : String)
  | projectAlertsList
  | get (k : Kind) (key : Key)
  | create (k : Kind) (r : k.Obj)
  | update (k : Kind) (r : k.Obj)
  | namespaceDelete (name : String)
  | projectsList (selector : List (String × String))
  | clusterGet (name : String)
  | catalogGet (name : String)

/-- What a successful call returns. -/
def Call.Ret : Call → Type
  | .templateGet _ => CatalogTemplate
  | .clusterAlertsList _ => List ClusterAlert
  | .projectAlertsList => List ProjectAlert
  | .get k _ | .create k _ | .update k _ => k.Obj
  | .namespaceDelete _ => Unit
  | .projectsList _ => List (Option Project)
  | .clusterGet _ => Cluster
  | .catalogGet _ => Catalog

/-- A lister lookup of the object cached under `name`; a miss is the lister's `NotFound`, which names the resource
`<kind>.<group>`. -/
def lookupE {R : Type} (resource name : String) : Option R → Except ApiError R
  | some r => .ok r
  | none => .error (.notFound resource name)

/-- The cache key a lister's `Get(namespace, name)` looks up: `namespace/name`, or `name` in no namespace. -/
def listerKey (k : Key) : String := if k.1 = "" then k.2 else k.1 ++ "/" ++ k.2

namespace Store

/-- The store with table `k` replaced. -/
def setTable (s : Store) (k : Kind) (t : Table k.Obj k.key) : Store :=
  { s with tables := Function.update s.tables k t }

/-- The store's reply to a call, and the store after it. -/
def answer (s : Store) : (c : Call) → Except ApiError c.Ret × Store
  | .templateGet k => (lookupE "catalogTemplate.management.cattle.io" (listerKey k) (s.readOnly.templates k), s)
  | .clusterAlertsList ns => (.ok (s.readOnly.clusterAlerts.filter (·.meta.ns == ns)), s)
  | .projectAlertsList => (.ok s.readOnly.projectAlerts, s)
  | .get k key => ((s.tables k).getE k.resource key, s)
  | .create k r =>
    match (s.tables k).get (k.key r) with
    | some _ => (.error (.alreadyExists k.resource (k.key r).2), s)
    | none => (.ok r, s.setTable k ((s.tables k).insert r))
  | .update k r =>
    match (s.tables k).get (k.key r) with
    | some _ => (.ok r, s.setTable k ((s.tables k).insert r))
    | none => (.error (.notFound k.resource (k.key r).2), s)
  | .namespaceDelete n =>
    if s.namespaces n then (.ok (), { s with namespaces := Function.update s.namespaces n false })
    else (.error (.notFound "namespaces" n), s)
  | .projectsList sel => (.ok ((s.readOnly.projects.filter (labelsMatch sel ·.labels)).map some), s)
  | .clusterGet n => (lookupE "cluster.management.cattle.io" n (s.readOnly.clusters n), s)
  | .catalogGet n => (lookupE "catalog.management.cattle.io" n (s.readOnly.catalogs n), s)

/-- The reply to a call that may meet an unexpected failure. -/
def respond (s : Store) (c : Call) : Option Failure → Except ApiError c.Ret × Store
  | some m => (.error (.unexpected m), s)
  | none => s.answer c

@[simp] theorem setTable_self (s : Store) (k : Kind) : s.setTable k (s.tables k) = s := by
  simp [setTable]

@[simp] theorem setTable_readOnly (s : Store) (k : Kind) (t : Table k.Obj k.key) :
    (s.setTable k t).readOnly = s.readOnly := rfl

@[simp] theorem setTable_namespaces (s : Store) (k : Kind) (t : Table k.Obj k.key) :
    (s.setTable k t).namespaces = s.namespaces := rfl

@[simp] theorem setTable_tables_self (s : Store) (k : Kind) (t : Table k.Obj k.key) :
    (s.setTable k t).tables k = t := by
  simp [setTable]

@[simp] theorem setTable_tables_of_ne (s : Store) {k k' : Kind} (t : Table k.Obj k.key) (h : k' ≠ k) :
    (s.setTable k t).tables k' = s.tables k' := by
  simp [setTable, Function.update_noteq h]

end Store

end AlertUpgrade
