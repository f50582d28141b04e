import AlertUpgrade.Migration

/-!
# Key by key

A migration loop writes each table key by key: what it leaves at a key depends only on what was there and on the
elements of the loop that write there. For a step that upserts `rule x` and ensures `group x`:

* the rule at a key is what the upserts of the rules written there leave, in order (`get_foldl_upsert`); since the
  migration's rules are `Kind.Fresh`, that is the last of them upserted over the old value (`get_foldl_fresh`);
* the group at a key is the old group, or else the first group written there (`get_foldl_ensure`).

`RuleReach` and `GroupReach` say what a run that stops early can leave at a key: the old value, or the old value
upserted with one of the rules written there; the old group, or the first one written there. A completed loop from
any such value leaves what it leaves from the old one (`lastRule_of_ruleReach`, `firstGroup_of_groupReach`): this is
why rerunning a migration is harmless. `Stopped.ruleReach` and `Stopped.groupReach` show that the stores a loop stops
in are of that kind.
-/

namespace AlertUpgrade

/-- Two stores with the same read-only part and namespaces and the same object at every key are equal. -/
theorem Store.ext_get {s t : Store} (hr : s.readOnly = t.readOnly) (hn : s.namespaces = t.namespaces)
    (ht : ∀ k κ, (s.tables k).get κ = (t.tables k).get κ) : s = t := by
  cases s; cases t
  cases hr; cases hn
  congr
  funext k
  exact Table.ext (funext (ht k))

section Fold

variable {β : Type} {step : Store → β → Store}

theorem foldl_eq_of_step {γ : Type} (f : Store → γ) (h : ∀ σ x, f (step σ x) = f σ) (xs : List β) (s : Store) :
    f (xs.foldl step s) = f s := by
  induction xs generalizing s with
  | nil => rfl
  | cons x xs ih => rw [List.foldl_cons, ih, h]

/-! ## Rules: the last write wins -/

section Rules

variable {kr : Kind} {rule : β → kr.Obj}

/-- Where each step upserts its rule, the rule at a key after the loop is what the upserts of the rules written
there leave, in order. -/
theorem get_foldl_upsert
    (h : ∀ σ x κ, ((step σ x).tables kr).get κ =
      if κ = kr.key (rule x) then some (kr.upsertVal ((σ.tables kr).get κ) (rule x)) else (σ.tables kr).get κ)
    (xs : List β) (s : Store) (κ : Key) :
    ((xs.foldl step s).tables kr).get κ =
      (xs.filter (fun x => kr.key (rule x) = κ)).foldl (fun o x => some (kr.upsertVal o (rule x))) ((s.tables kr).get κ) := by
  induction xs generalizing s with
  | nil => rfl
  | cons x xs ih =>
    rw [List.foldl_cons, ih, h, List.filter_cons]
    by_cases hx : kr.key (rule x) = κ
    · subst hx; simp
    · simp [hx, Ne.symm hx]

variable (kr rule)

/-- The rule the last of `ws` leaves at its key, upserted over `o`. -/
def lastRule (ws : List β) (o : Option kr.Obj) : Option kr.Obj :=
  ws.getLast?.elim o fun w => some (kr.upsertVal o (rule w))

variable {kr rule}

theorem foldl_upsertVal_of_fresh (hfresh : ∀ x, kr.Fresh (rule x)) {κ : Key} :
    ∀ (ws : List β), (∀ w ∈ ws, kr.key (rule w) = κ) → ∀ o,
      ws.foldl (fun o x => some (kr.upsertVal o (rule x))) o = lastRule kr rule ws o
  | [], _, _ => rfl
  | [w], _, o => rfl
  | w :: w' :: ws, hk, o => by
    rw [List.foldl_cons, foldl_upsertVal_of_fresh hfresh (w' :: ws) (fun u hu => hk u (List.mem_cons_of_mem _ hu))]
    obtain ⟨u, hu⟩ := List.getLast?_isSome.2 (List.cons_ne_nil w' ws) |> Option.isSome_iff_exists.1
    have hmem := List.mem_of_getLast?_eq_some hu
    have hmeta : kr.meta (rule w) = kr.meta (rule u) :=
      Kind.meta_eq_of_fresh (hfresh w) (hfresh u)
        ((hk w (List.mem_cons_self _ _)).trans (hk u (List.mem_cons_of_mem _ hmem)).symm)
    simp only [lastRule, List.getLast?_cons_cons, hu, Option.elim, Kind.upsertVal_upsertVal fun _ => hmeta]

/-- Where each step upserts a fresh rule, the rule at a key after the loop is the last one written there, upserted
over the old value. -/
theorem get_foldl_fresh (hfresh : ∀ x, kr.Fresh (rule x))
    (h : ∀ σ x κ, ((step σ x).tables kr).get κ =
      if κ = kr.key (rule x) then some (kr.upsertVal ((σ.tables kr).get κ) (rule x)) else (σ.tables kr).get κ)
    (xs : List β) (s : Store) (κ : Key) :
    ((xs.foldl step s).tables kr).get κ = lastRule kr rule (xs.filter (fun x => kr.key (rule x) = κ)) ((s.tables kr).get κ) := by
  rw [get_foldl_upsert h, foldl_upsertVal_of_fresh hfresh _ fun w hw => by simpa using (List.mem_filter.1 hw).2]

variable (kr rule)

/-- What a loop over `xs` that upserts `rule x` can leave at key `κ` where `o` was: `o`, or `o` upserted with a
rule of `xs` written there. -/
def RuleReach (xs : List β) (κ : Key) (o o' : Option kr.Obj) : Prop :=
  o' = o ∨ ∃ w ∈ xs, kr.key (rule w) = κ ∧ o' = some (kr.upsertVal o (rule w))

variable {kr rule}

theorem ruleReach_refl (xs : List β) (κ : Key) (o : Option kr.Obj) : RuleReach kr rule xs κ o o := .inl rfl

/-- A completed loop leaves the same rule at a key from every value a stopped run of it can leave there. -/
theorem lastRule_of_ruleReach (hfresh : ∀ x, kr.Fresh (rule x)) {xs : List β} {κ : Key} {o o' : Option kr.Obj}
    (h : RuleReach kr rule xs κ o o') :
    lastRule kr rule (xs.filter (fun x => kr.key (rule x) = κ)) o' = lastRule kr rule (xs.filter (fun x => kr.key (rule x) = κ)) o := by
  rcases h with rfl | ⟨w, hw, hk, rfl⟩
  · rfl
  · have hne : xs.filter (fun x => kr.key (rule x) = κ) ≠ [] := List.ne_nil_of_mem (List.mem_filter.2 ⟨hw, by simpa using hk⟩)
    obtain ⟨u, hu⟩ := Option.isSome_iff_exists.1 (List.getLast?_isSome.2 hne)
    have hku : kr.key (rule u) = κ := by simpa using (List.mem_filter.1 (List.mem_of_getLast?_eq_some hu)).2
    simp only [lastRule, hu, Option.elim,
      Kind.upsertVal_upsertVal fun _ => Kind.meta_eq_of_fresh (hfresh w) (hfresh u) (hk.trans hku.symm)]

/-- The rule at a key after the loop is reachable. -/
theorem ruleReach_lastRule (xs : List β) (κ : Key) (o : Option kr.Obj) :
    RuleReach kr rule xs κ o (lastRule kr rule (xs.filter (fun x => kr.key (rule x) = κ)) o) := by
  unfold lastRule
  cases hu : (xs.filter (fun x => kr.key (rule x) = κ)).getLast? with
  | none => exact .inl rfl
  | some u =>
    have := List.mem_filter.1 (List.mem_of_getLast?_eq_some hu)
    exact .inr ⟨u, this.1, by simpa using this.2, rfl⟩

theorem RuleReach.mono {xs ys : List β} (hxy : ∀ x ∈ xs, x ∈ ys) {κ : Key} {o o' : Option kr.Obj}
    (h : RuleReach kr rule xs κ o o') : RuleReach kr rule ys κ o o' :=
  h.imp_right fun ⟨w, hw, hk, he⟩ => ⟨w, hxy w hw, hk, he⟩

/-- A value a stopped loop can leave that differs from the old one was written by an element of the loop. -/
theorem RuleReach.written {xs : List β} {κ : Key} {o o' : Option kr.Obj} (h : RuleReach kr rule xs κ o o')
    (hne : o' ≠ o) : ∃ w ∈ xs, kr.key (rule w) = κ :=
  match h with
  | .inl he => absurd he hne
  | .inr ⟨w, hw, hk, _⟩ => ⟨w, hw, hk⟩

end Rules

/-! ## Groups: the first write wins -/

section Groups

variable {kg : Kind} {group : β → kg.Obj}

/-- The group the first of `ws` leaves, where `o` was. -/
def firstGroup (kg : Kind) (group : β → kg.Obj) (ws : List β) (o : Option kg.Obj) : Option kg.Obj :=
  o.orElse fun _ => ws.head?.map group

/-- Where each step ensures its group, the group at a key after the loop is the old one, or else the first one
written there. -/
theorem get_foldl_ensure
    (h : ∀ σ x κ, ((step σ x).tables kg).get κ =
      if κ = kg.key (group x) then ((σ.tables kg).get κ).orElse (fun _ => some (group x)) else (σ.tables kg).get κ)
    (xs : List β) (s : Store) (κ : Key) :
    ((xs.foldl step s).tables kg).get κ = firstGroup kg group (xs.filter (fun x => kg.key (group x) = κ)) ((s.tables kg).get κ) := by
  induction xs generalizing s with
  | nil => cases h : (s.tables kg).get κ <;> simp [firstGroup, h]
  | cons x xs ih =>
    rw [List.foldl_cons, ih, h, List.filter_cons]
    by_cases hx : kg.key (group x) = κ
    · subst hx; cases (s.tables kg).get (kg.key (group x)) <;> simp [firstGroup]
    · simp [hx, Ne.symm hx]

variable (kg group)

/-- What a loop over `xs` that ensures `group x` can leave at key `κ` where `o` was: `o`, or the first group
written there unless `o` is present. -/
def GroupReach (xs : List β) (κ : Key) (o o' : Option kg.Obj) : Prop :=
  o' = o ∨ o' = firstGroup kg group (xs.filter (fun x => kg.key (group x) = κ)) o

variable {kg group}

theorem firstGroup_of_groupReach {xs : List β} {κ : Key} {o o' : Option kg.Obj} (h : GroupReach kg group xs κ o o') :
    firstGroup kg group (xs.filter (fun x => kg.key (group x) = κ)) o' = firstGroup kg group (xs.filter (fun x => kg.key (group x) = κ)) o := by
  rcases h with rfl | rfl
  · rfl
  · unfold firstGroup
    cases o <;> cases (xs.filter (fun x => kg.key (group x) = κ)).head? <;> rfl

theorem GroupReach.written {xs : List β} {κ : Key} {o o' : Option kg.Obj} (h : GroupReach kg group xs κ o o')
    (hne : o' ≠ o) : ∃ w ∈ xs, kg.key (group w) = κ := by
  rcases h with rfl | rfl
  · exact absurd rfl hne
  · cases hw : (xs.filter (fun x => kg.key (group x) = κ)).head? with
    | none => cases o <;> simp [firstGroup, hw] at hne
    | some w =>
      have := List.mem_filter.1 (List.mem_of_mem_head? hw)
      exact ⟨w, this.1, by simpa using this.2⟩

end Groups

/-! ## Stopped loops -/

variable {ruleStep : Store → β → Store} {kr kg : Kind} {rule : β → kr.Obj} {group : β → kg.Obj}

theorem Stopped.ruleReach (hfresh : ∀ x, kr.Fresh (rule x))
    (h : ∀ σ x κ, ((step σ x).tables kr).get κ =
      if κ = kr.key (rule x) then some (kr.upsertVal ((σ.tables kr).get κ) (rule x)) else (σ.tables kr).get κ)
    (hr : ∀ σ x κ, ((ruleStep σ x).tables kr).get κ =
      if κ = kr.key (rule x) then some (kr.upsertVal ((σ.tables kr).get κ) (rule x)) else (σ.tables kr).get κ)
    {xs : List β} {s s' : Store} (hs : Stopped step ruleStep xs s s') (κ : Key) :
    RuleReach kr rule xs κ ((s.tables kr).get κ) ((s'.tables kr).get κ) := by
  obtain ⟨pre, hpre, rfl | ⟨v, hv, rfl⟩⟩ := hs
  · rw [get_foldl_fresh hfresh h]
    exact (ruleReach_lastRule pre κ _).mono fun x hx => hpre.subset hx
  · have hreach := (@ruleReach_lastRule _ _ rule pre κ ((s.tables kr).get κ)).mono fun x hx => hpre.subset hx
    rw [hr, get_foldl_fresh hfresh h]
    split
    · next hκ =>
      refine .inr ⟨v, hv.subset (List.mem_append_right _ (List.mem_singleton_self v)), hκ.symm, ?_⟩
      rcases hreach with he | ⟨w, -, hk, he⟩
      · rw [he]
      · rw [he, Kind.upsertVal_upsertVal fun _ => Kind.meta_eq_of_fresh (hfresh w) (hfresh v) (hk.trans hκ)]
    · exact hreach

theorem Stopped.groupReach
    (h : ∀ σ x κ, ((step σ x).tables kg).get κ =
      if κ = kg.key (group x) then ((σ.tables kg).get κ).orElse (fun _ => some (group x)) else (σ.tables kg).get κ)
    (hr : ∀ σ x, (ruleStep σ x).tables kg = σ.tables kg)
    {xs : List β} {s s' : Store} (hs : Stopped step ruleStep xs s s') (κ : Key) :
    GroupReach kg group xs κ ((s.tables kg).get κ) ((s'.tables kg).get κ) := by
  have hpre : ∀ {pre}, pre <+: xs → GroupReach kg group xs κ ((s.tables kg).get κ)
      (((pre.foldl step s).tables kg).get κ) := by
    intro pre hpre
    rw [get_foldl_ensure h]
    cases hw : (pre.filter (fun x => kg.key (group x) = κ)).head? with
    | none => exact .inl (by cases (s.tables kg).get κ <;> simp [firstGroup, hw])
    | some w =>
      refine .inr ?_
      obtain ⟨rest, rfl⟩ := hpre
      simp [firstGroup, hw, List.filter_append, List.head?_append]
  obtain ⟨pre, hp, rfl | ⟨v, -, rfl⟩⟩ := hs
  · exact hpre hp
  · rw [hr]; exact hpre hp

end Fold

/-! ## The migration's steps -/

theorem newClusterRule_fresh (clusterName : String) (v : ClusterAlert) :
    Kind.Fresh .clusterAlertRule (newClusterRule clusterName v) := rfl

theorem newProjectRule_fresh (v : ProjectAlert) :
    Kind.Fresh .projectAlertRule (newProjectRule v.spec.projectName (refParse v.spec.projectName).2 v) := rfl

section Steps

variable (c : String) (σ : Store)

@[simp] theorem clusterStep_readOnly (v : ClusterAlert) : (clusterStep c σ v).readOnly = σ.readOnly := by
  simp [clusterStep]

@[simp] theorem clusterStep_namespaces (v : ClusterAlert) : (clusterStep c σ v).namespaces = σ.namespaces := by
  simp [clusterStep]

theorem clusterStep_rule (v : ClusterAlert) (κ : Key) :
    ((clusterStep c σ v).tables .clusterAlertRule).get κ =
      if κ = Kind.key .clusterAlertRule (newClusterRule c v) then
        some (Kind.upsertVal .clusterAlertRule ((σ.tables .clusterAlertRule).get κ) (newClusterRule c v))
      else (σ.tables .clusterAlertRule).get κ := by
  simp [clusterStep]

theorem clusterStep_group (v : ClusterAlert) (κ : Key) :
    ((clusterStep c σ v).tables .clusterAlertGroup).get κ =
      if κ = Kind.key .clusterAlertGroup (legacyClusterGroup c v) then
        ((σ.tables .clusterAlertGroup).get κ).orElse fun _ => some (legacyClusterGroup c v)
      else (σ.tables .clusterAlertGroup).get κ := by
  simp [clusterStep]

theorem clusterStep_tables_of_ne {k : Kind} (h₁ : k ≠ .clusterAlertRule) (h₂ : k ≠ .clusterAlertGroup)
    (v : ClusterAlert) : (clusterStep c σ v).tables k = σ.tables k := by
  simp [clusterStep, h₁, h₂]

@[simp] theorem projectStep_readOnly (v : ProjectAlert) : (projectStep σ v).readOnly = σ.readOnly := by
  simp [projectStep]

@[simp] theorem projectStep_namespaces (v : ProjectAlert) : (projectStep σ v).namespaces = σ.namespaces := by
  simp [projectStep]

theorem projectStep_rule (v : ProjectAlert) (κ : Key) :
    ((projectStep σ v).tables .projectAlertRule).get κ =
      if κ = Kind.key .projectAlertRule (newProjectRule v.spec.projectName (refParse v.spec.projectName).2 v) then
        some (Kind.upsertVal .projectAlertRule ((σ.tables .projectAlertRule).get κ)
          (newProjectRule v.spec.projectName (refParse v.spec.projectName).2 v))
      else (σ.tables .projectAlertRule).get κ := by
  simp [projectStep]

theorem projectStep_group (v : ProjectAlert) (κ : Key) :
    ((projectStep σ v).tables .projectAlertGroup).get κ =
      if κ = Kind.key .projectAlertGroup (legacyProjectGroup v.spec.projectName (refParse v.spec.projectName).2 v) then
        ((σ.tables .projectAlertGroup).get κ).orElse fun _ =>
          some (legacyProjectGroup v.spec.projectName (refParse v.spec.projectName).2 v)
      else (σ.tables .projectAlertGroup).get κ := by
  simp [projectStep]

theorem projectStep_tables_of_ne {k : Kind} (h₁ : k ≠ .projectAlertRule) (h₂ : k ≠ .projectAlertGroup)
    (v : ProjectAlert) : (projectStep σ v).tables k = σ.tables k := by
  simp [projectStep, h₁, h₂]

end Steps

end AlertUpgrade
