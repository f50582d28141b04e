import AlertUpgrade.Upgrade

/-!
# What the migration steps do to the store

The writes of a successful migration step, as functions on stores: `Store.upsert k r` (the rule step: `r` is stored,
or the stored object gets `r`'s spec and keeps its metadata) and `Store.ensure k g` (a create: `g` is stored unless
its key is taken). Each comes with its value at every key (`upsert_get`, `ensure_get`) and with the facts that
everything else is unchanged.

The objects the migration builds are `Kind.Fresh`: their metadata is the bare `ObjectMeta{Name, Namespace}` of their
key. Two upserts of fresh objects at one key leave what the second alone leaves (`upsertVal_upsertVal`): the last
write decides the spec, and the metadata is the first object's.
-/

namespace AlertUpgrade

namespace Kind

variable {k : Kind}

@[simp] theorem meta_withSpec (o r : k.Obj) : k.meta (k.withSpec o r) = k.meta o := by
  cases k <;> rfl

@[simp] theorem key_withSpec (o r : k.Obj) : k.key (k.withSpec o r) = k.key o := by
  simp [key]

@[simp] theorem withSpec_withSpec (o r₁ r₂ : k.Obj) : k.withSpec (k.withSpec o r₁) r₂ = k.withSpec o r₂ := by
  cases k <;> rfl

/-- An object with the metadata of another keeps nothing of the other under `withSpec`. -/
theorem withSpec_of_meta_eq {o r : k.Obj} (h : k.meta o = k.meta r) : k.withSpec o r = r := by
  cases k <;> cases r <;> simp_all [withSpec, meta]

/-- An object as the migration builds it: metadata holding only its name and namespace. -/
def Fresh (k : Kind) (r : k.Obj) : Prop := k.meta r = .named (k.key r).1 (k.key r).2

theorem meta_eq_of_fresh {r₁ r₂ : k.Obj} (h₁ : k.Fresh r₁) (h₂ : k.Fresh r₂) (h : k.key r₁ = k.key r₂) :
    k.meta r₁ = k.meta r₂ := by
  rw [h₁, h₂, h]

/-- What an upsert of `r` leaves at `r`'s key, where `old` was stored. -/
def upsertVal (k : Kind) (old : Option k.Obj) (r : k.Obj) : k.Obj :=
  match old with
  | some o => k.withSpec o r
  | none => r

@[simp] theorem upsertVal_none (r : k.Obj) : k.upsertVal none r = r := rfl

@[simp] theorem upsertVal_some (o r : k.Obj) : k.upsertVal (some o) r = k.withSpec o r := rfl

/-- A second upsert at the same key overwrites the first, down to its metadata. -/
theorem upsertVal_upsertVal {x : Option k.Obj} {r₁ r₂ : k.Obj} (h : x = none → k.meta r₁ = k.meta r₂) :
    k.upsertVal (some (k.upsertVal x r₁)) r₂ = k.upsertVal x r₂ := by
  cases x with
  | none => exact withSpec_of_meta_eq (h rfl)
  | some o => simp

end Kind

namespace Store

variable (s : Store) (k : Kind)

/-- The rule step that succeeds. -/
def upsert (r : k.Obj) : Store :=
  s.setTable k ((s.tables k).insert (k.upsertVal ((s.tables k).get (k.key r)) r))

/-- A create that succeeds or finds its key taken. -/
def ensure (g : k.Obj) : Store :=
  match (s.tables k).get (k.key g) with
  | some _ => s
  | none => s.setTable k ((s.tables k).insert g)

variable {s k}

theorem key_upsertVal (r : k.Obj) : k.key (k.upsertVal ((s.tables k).get (k.key r)) r) = k.key r := by
  cases h : (s.tables k).get (k.key r) with
  | none => rfl
  | some o => simpa using (s.tables k).get_key h

@[simp] theorem upsert_get (r : k.Obj) (κ : Key) :
    ((s.upsert k r).tables k).get κ =
      if κ = k.key r then some (k.upsertVal ((s.tables k).get κ) r) else (s.tables k).get κ := by
  simp only [upsert, setTable_tables_self, Table.insert_get, key_upsertVal]
  split <;> simp_all

@[simp] theorem upsert_tables_of_ne {k' : Kind} (r : k.Obj) (h : k' ≠ k) : (s.upsert k r).tables k' = s.tables k' :=
  setTable_tables_of_ne _ _ h

@[simp] theorem upsert_readOnly (r : k.Obj) : (s.upsert k r).readOnly = s.readOnly := rfl

@[simp] theorem upsert_namespaces (r : k.Obj) : (s.upsert k r).namespaces = s.namespaces := rfl

@[simp] theorem ensure_get (g : k.Obj) (κ : Key) :
    ((s.ensure k g).tables k).get κ = if κ = k.key g then ((s.tables k).get κ).orElse fun _ => some g
      else (s.tables k).get κ := by
  unfold ensure
  split <;> split <;> simp_all

@[simp] theorem ensure_tables_of_ne {k' : Kind} (g : k.Obj) (h : k' ≠ k) : (s.ensure k g).tables k' = s.tables k' := by
  unfold ensure; split <;> simp [h]

@[simp] theorem ensure_readOnly (g : k.Obj) : (s.ensure k g).readOnly = s.readOnly := by
  unfold ensure; split <;> rfl

@[simp] theorem ensure_namespaces (g : k.Obj) : (s.ensure k g).namespaces = s.namespaces := by
  unfold ensure; split <;> rfl

/-- A namespace delete that succeeds or finds the namespace gone. -/
def deleteNamespace (s : Store) (n : String) : Store := { s with namespaces := Function.update s.namespaces n false }

@[simp] theorem deleteNamespace_tables (n : String) : (s.deleteNamespace n).tables = s.tables := rfl

@[simp] theorem deleteNamespace_readOnly (n : String) : (s.deleteNamespace n).readOnly = s.readOnly := rfl

@[simp] theorem deleteNamespace_namespaces (n m : String) :
    (s.deleteNamespace n).namespaces m = if m = n then false else s.namespaces m := by
  simp [deleteNamespace, Function.update_apply]

theorem deleteNamespace_of_absent {n : String} (h : s.namespaces n = false) : s.deleteNamespace n = s := by
  simp [deleteNamespace, ← h]

theorem answer_namespaceDelete_store (n : String) : (s.answer (.namespaceDelete n)).2 = s.deleteNamespace n := by
  cases h : s.namespaces n
  · simp [answer, h, deleteNamespace_of_absent h]
  · simp [answer, h, deleteNamespace]

/-- The store a create leaves is the one `ensure` describes. -/
theorem answer_create_store (g : k.Obj) : (s.answer (.create k g)).2 = s.ensure k g := by
  simp only [answer, ensure]
  cases (s.tables k).get (k.key g) <;> rfl

end Store

end AlertUpgrade
