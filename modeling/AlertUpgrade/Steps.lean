import AlertUpgrade.Effects

/-!
# One spec per function

For each function of `upgradeimpl.go` below `Upgrade`, what its run without unexpected failures does (`_exec`) and
what every run can end in (`_wp`):

* the rule step `migrateRule` succeeds with `Store.upsert`, or fails with an error before writing anything;
* an iteration of either migration loop succeeds with its `step` (upsert the rule, ensure the group), or fails
  after the rule step or before it, with an error or, where a failed project group create returned a `nil`
  object, a panic;
* `forEach` over a list succeeds with the fold of the body's effect, or ends as the body ends on some element, from
  the fold over the elements before it (`forEach_wp`); the nested loop over `oldProjectAlertGroup` is one `forEach`
  over the concatenated buckets (`forEach_flatMap`);
* `removeLegacyAlerting` succeeds with `Store.deleteNamespace`, or fails before writing.
-/

namespace AlertUpgrade

open Prog

/-! ## The rule step -/

theorem migrateRule_exec (k : Kind) (r : k.Obj) (v : ObjectMeta) (s : Store) :
    (migrateRule k r v).exec s = (.returned none, s.upsert k r) := by
  cases h : (s.tables k).get (k.key r) with
  | none => simp [migrateRule, Store.answer, Table.getE, Store.upsert, h]
  | some o =>
    have ho := (s.tables k).get_key h
    simp [migrateRule, Store.answer, Table.getE, Store.upsert, h, ho]

theorem migrateRule_wp (k : Kind) (r : k.Obj) (v : ObjectMeta) (s : Store) :
    wp (migrateRule k r v) (fun out s' _ => out = .returned none ∧ s' = s.upsert k r ∨
      (∃ e, out = .returned (some e)) ∧ s' = s) s := by
  cases h : (s.tables k).get (k.key r) with
  | none => simp [migrateRule, wp_call_iff, Store.answer, Table.getE, Store.upsert, h]
  | some o =>
    have ho := (s.tables k).get_key h
    simp [migrateRule, wp_call_iff, Store.answer, Table.getE, Store.upsert, h, ho]

/-! ## The loop bodies -/

/-- What an iteration of the cluster loop that succeeds leaves. -/
def clusterStep (clusterName : String) (s : Store) (v : ClusterAlert) : Store :=
  (s.upsert .clusterAlertRule (newClusterRule clusterName v)).ensure .clusterAlertGroup
    (legacyClusterGroup clusterName v)

/-- What an iteration of the project loop that succeeds leaves, for an alert of the bucket of its own project. -/
def projectStep (s : Store) (v : ProjectAlert) : Store :=
  (s.upsert .projectAlertRule (newProjectRule v.spec.projectName (refParse v.spec.projectName).2 v)).ensure
    .projectAlertGroup (legacyProjectGroup v.spec.projectName (refParse v.spec.projectName).2 v)

theorem migrateClusterAlert_exec (clusterName : String) (v : ClusterAlert) (s : Store) :
    (migrateClusterAlert clusterName v).exec s = (.returned none, clusterStep clusterName s v) := by
  rw [migrateClusterAlert, exec_bind, migrateRule_exec]
  cases h : (s.tables .clusterAlertGroup).get
    (Kind.key .clusterAlertGroup (legacyClusterGroup clusterName v)) <;>
  simp [Store.answer, clusterStep, Store.ensure, h]

theorem migrateClusterAlert_wp (clusterName : String) (v : ClusterAlert) (s : Store) :
    wp (migrateClusterAlert clusterName v) (fun out s' _ => out = .returned none ∧ s' = clusterStep clusterName s v ∨
      (∃ e, out = .returned (some e)) ∧ (s' = s ∨ s' = s.upsert .clusterAlertRule (newClusterRule clusterName v))) s := by
  refine wp_bind (wp_mono (migrateRule_wp _ _ _ s) ?_)
  rintro out s' - (⟨rfl, rfl⟩ | ⟨⟨e, rfl⟩, rfl⟩)
  · cases h : (s.tables .clusterAlertGroup).get
      (Kind.key .clusterAlertGroup (legacyClusterGroup clusterName v)) <;>
    simp [bindPost, wp_call_iff, Store.answer, clusterStep, Store.ensure, h]
  · simp [bindPost]

theorem migrateProjectAlert_exec (v : ProjectAlert) (s : Store) :
    (migrateProjectAlert v.spec.projectName (refParse v.spec.projectName).2 v).exec s =
      (.returned none, projectStep s v) := by
  rw [migrateProjectAlert, exec_bind, migrateRule_exec]
  cases h : (s.tables .projectAlertGroup).get
    (Kind.key .projectAlertGroup (legacyProjectGroup v.spec.projectName (refParse v.spec.projectName).2 v)) <;>
  simp [Store.answer, projectStep, Store.ensure, h]

theorem migrateProjectAlert_wp (v : ProjectAlert) (s : Store) :
    wp (migrateProjectAlert v.spec.projectName (refParse v.spec.projectName).2 v) (fun out s' _ =>
      out = .returned none ∧ s' = projectStep s v ∨
      out ≠ .returned none ∧ (s' = s ∨
        s' = s.upsert .projectAlertRule (newProjectRule v.spec.projectName (refParse v.spec.projectName).2 v))) s := by
  refine wp_bind (wp_mono (migrateRule_wp _ _ _ s) ?_)
  rintro out s' - (⟨rfl, rfl⟩ | ⟨⟨m, rfl⟩, rfl⟩)
  · cases h : (s.tables .projectAlertGroup).get
      (Kind.key .projectAlertGroup (legacyProjectGroup v.spec.projectName (refParse v.spec.projectName).2 v)) <;>
    simp [bindPost, wp_call_iff, Store.answer, projectStep, Store.ensure, h] <;>
    rintro ⟨_, _ | _⟩ <;> simp [ApiError.unexpected]
  · simp [bindPost]

/-! ## Loops -/

section Loops

variable {β : Type} {body : β → Prog (Option String)}

/-- A store a loop over `vs` can stop in, from `s`: after the iterations over a prefix of `vs`, and possibly the
rule step `ruleStep` of the next one. -/
def Stopped (step ruleStep : Store → β → Store) (vs : List β) (s s' : Store) : Prop :=
  ∃ pre, pre <+: vs ∧ (s' = pre.foldl step s ∨ ∃ v, pre ++ [v] <+: vs ∧ s' = ruleStep (pre.foldl step s) v)

theorem stopped_self (step ruleStep : Store → β → Store) (vs : List β) (s : Store) :
    Stopped step ruleStep vs s s :=
  ⟨[], List.nil_prefix, .inl rfl⟩

theorem forEach_exec {step : Store → β → Store} (vs : List β) (s : Store)
    (h : ∀ v ∈ vs, ∀ σ, (body v).exec σ = (.returned none, step σ v)) :
    (forEach body vs).exec s = (.returned none, vs.foldl step s) := by
  induction vs generalizing s with
  | nil => rfl
  | cons v vs ih =>
    rw [forEach, exec_bind, h v (List.mem_cons_self _ _)]
    exact ih _ fun w hw => h w (List.mem_cons_of_mem _ hw)

/-- The Go pattern `if err := x(); err != nil { return err }; y()`: every run ends as `y` run after a run of `x` that
returned `nil` ends, or as a run of `x` that did not. -/
theorem wp_seq {x y : Prog (Option String)} {Q : Outcome (Option String) → Store → List Call → Prop} {s : Store}
    (h : wp x (fun out s' cs => (out = .returned none → wp y (fun out' s'' cs' => Q out' s'' (cs ++ cs')) s') ∧
      (out ≠ .returned none → Q out s' cs)) s) :
    wp (do match ← x with
      | some err => return some err
      | none => y) Q s := by
  refine wp_bind (wp_mono h ?_)
  rintro ((_ | e) | m) s' cs ⟨hnone, hstop⟩
  · exact hnone rfl
  · simpa [bindPost] using hstop (by simp)
  · exact hstop (by simp)

/-- A loop whose body, on every element, succeeds with `step` or fails before or after its rule step, succeeds with
the fold of `step` or stops in a `Stopped` store. -/
theorem forEach_wp {step ruleStep : Store → β → Store} (vs : List β) (s : Store)
    (h : ∀ v ∈ vs, ∀ σ, wp (body v) (fun out σ' _ => out = .returned none ∧ σ' = step σ v ∨
      out ≠ .returned none ∧ (σ' = σ ∨ σ' = ruleStep σ v)) σ) :
    wp (forEach body vs) (fun out σ' _ => out = .returned none ∧ σ' = vs.foldl step s ∨
      out ≠ .returned none ∧ Stopped step ruleStep vs s σ') s := by
  induction vs generalizing s with
  | nil => simp [forEach]
  | cons v vs ih =>
    refine wp_seq (wp_mono (h v (List.mem_cons_self _ _) s) ?_)
    rintro out σ' - (⟨rfl, rfl⟩ | ⟨hne, hσ'⟩)
    · refine ⟨fun _ => wp_mono (ih _ fun w hw => h w (List.mem_cons_of_mem _ hw)) ?_, fun h => absurd rfl h⟩
      rintro out σ'' - (⟨rfl, rfl⟩ | ⟨hne', pre, hpre, hσ''⟩)
      · exact .inl ⟨rfl, rfl⟩
      · refine .inr ⟨hne', v :: pre, List.prefix_cons_inj _ |>.2 hpre, ?_⟩
        rcases hσ'' with rfl | ⟨w, hw, rfl⟩
        · exact .inl rfl
        · exact .inr ⟨w, List.prefix_cons_inj _ |>.2 hw, rfl⟩
    · refine ⟨fun h => absurd h hne, fun _ => .inr ⟨hne, [], List.nil_prefix, ?_⟩⟩
      rcases hσ' with rfl | rfl
      · exact .inl rfl
      · exact .inr ⟨v, List.prefix_cons_inj _ |>.2 List.nil_prefix, rfl⟩

theorem forEach_append (xs ys : List β) :
    forEach body (xs ++ ys) = (forEach body xs >>= fun r => match r with
      | some err => return some err
      | none => forEach body ys) := by
  induction xs with
  | nil => rfl
  | cons x xs ih =>
    simp only [List.cons_append, forEach, bind_assoc]
    congr 1
    funext r
    cases r <;> simp [ih]

theorem forEach_congr {body' : β → Prog (Option String)} {vs : List β} (h : ∀ v ∈ vs, body v = body' v) :
    forEach body vs = forEach body' vs := by
  induction vs with
  | nil => rfl
  | cons v vs ih =>
    simp only [forEach, h v (List.mem_cons_self _ _), ih fun w hw => h w (List.mem_cons_of_mem _ hw)]

/-- The nested loop over the entries of a map is one loop over the concatenated entries, when the inner body reads
the entry's key only through the element. -/
theorem forEach_flatMap {α : Type} (g : α → β → Prog (Option String)) (es : List (α × List β))
    (hg : ∀ e ∈ es, ∀ v ∈ e.2, g e.1 v = body v) :
    forEach (fun e => forEach (g e.1) e.2) es = forEach body (es.flatMap Prod.snd) := by
  induction es with
  | nil => rfl
  | cons e es ih =>
    rw [List.flatMap_cons, forEach_append, ← ih fun e' he' => hg e' (List.mem_cons_of_mem _ he'),
      ← forEach_congr (hg e (List.mem_cons_self _ _))]
    rfl

end Loops

/-! ## Removing the legacy namespace -/

theorem removeLegacyAlerting_exec (s : Store) :
    removeLegacyAlerting.exec s = (.returned none, s.deleteNamespace "cattle-alerting") := by
  cases h : s.namespaces "cattle-alerting"
  · simp [removeLegacyAlerting, Store.answer, h, Store.deleteNamespace_of_absent h]
  · simp [removeLegacyAlerting, Store.answer, h, Store.deleteNamespace]

theorem removeLegacyAlerting_wp (s : Store) :
    wp removeLegacyAlerting (fun out s' _ => out = .returned none ∧ s' = s.deleteNamespace "cattle-alerting" ∨
      (∃ e, out = .returned (some e)) ∧ s' = s) s := by
  cases h : s.namespaces "cattle-alerting"
  · simp [removeLegacyAlerting, wp_call_iff, Store.answer, h, Store.deleteNamespace_of_absent h]
  · simp [removeLegacyAlerting, wp_call_iff, Store.answer, h, Store.deleteNamespace]

end AlertUpgrade
