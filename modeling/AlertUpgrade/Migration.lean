import AlertUpgrade.Steps

/-!
# The migration loops as folds

`migrateLegacyClusterAlert` runs its body over the listed cluster alerts of the cluster's namespace;
`migrateLegacyProjectAlert` first groups the in-cluster project alerts by project ID into the Go map
`oldProjectAlertGroup`, then runs its body bucket by bucket, in the order the `range` visits the map. This module
shows what those loops do:

* `groupByProject` builds a grouping (`Grouped`): pairwise distinct project IDs, each bucket the in-cluster alerts of
  its project in listing order (`grouped_groupByProject`);
* the nested loops are one loop over `projectPlan`, the buckets concatenated in visiting order
  (`forEach_buckets`); the alerts of `projectPlan` that satisfy a test true only within one project are, in order,
  those of the listing, whatever the visiting order (`filter_projectPlan`);
* each loop, run with every call answered, leaves the fold of its step (`migrateLegacyClusterAlert_exec`,
  `migrateLegacyProjectAlert_exec`), and every run of it either does so and returns `nil` or stops early in a
  `Stopped` store (`migrateLegacyClusterAlert_wp`, `migrateLegacyProjectAlert_wp`).
-/

namespace AlertUpgrade

open Prog

/-! ## The grouping map -/

/-- `m` is the grouping of `L` by project ID. -/
structure Grouped (L : List ProjectAlert) (m : List (String × List ProjectAlert)) : Prop where
  nodup : (m.map Prod.fst).Nodup
  bucket : ∀ e ∈ m, e.2 = L.filter (·.spec.projectName = e.1)
  covers : ∀ v ∈ L, v.spec.projectName ∈ m.map Prod.fst

theorem keys_appendToBucket (v : ProjectAlert) (m : List (String × List ProjectAlert)) :
    (appendToBucket v m).map Prod.fst = if v.spec.projectName ∈ m.map Prod.fst then m.map Prod.fst
      else m.map Prod.fst ++ [v.spec.projectName] := by
  induction m with
  | nil => simp [appendToBucket]
  | cons e m ih =>
    by_cases h : e.1 = v.spec.projectName
    · simp [appendToBucket, h]
    · simp only [appendToBucket, h, ite_false, List.map_cons, ih, List.mem_cons, Ne.symm h, false_or]
      split <;> rfl

theorem mem_appendToBucket {v : ProjectAlert} {m : List (String × List ProjectAlert)} (hnd : (m.map Prod.fst).Nodup)
    {e : String × List ProjectAlert} (he : e ∈ appendToBucket v m) :
    e ∈ m ∧ e.1 ≠ v.spec.projectName ∨ e.1 = v.spec.projectName ∧
      ((∃ vs, (v.spec.projectName, vs) ∈ m ∧ e.2 = vs ++ [v]) ∨ v.spec.projectName ∉ m.map Prod.fst ∧ e.2 = [v]) := by
  induction m with
  | nil => simp_all [appendToBucket]
  | cons f m ih =>
    obtain ⟨pid, vs⟩ := f
    simp only [List.map_cons, List.nodup_cons] at hnd
    by_cases h : pid = v.spec.projectName
    · subst h
      simp only [appendToBucket, ite_true, List.mem_cons] at he
      rcases he with rfl | he
      · exact .inr ⟨rfl, .inl ⟨vs, List.mem_cons_self _ _, rfl⟩⟩
      · exact .inl ⟨List.mem_cons_of_mem _ he, fun h' => hnd.1 (h' ▸ List.mem_map_of_mem _ he)⟩
    · simp only [appendToBucket, h, ite_false, List.mem_cons] at he
      rcases he with rfl | he
      · exact .inl ⟨List.mem_cons_self _ _, h⟩
      · rcases ih hnd.2 he with ⟨hm, hne⟩ | ⟨h1, ⟨ws, hws, h2⟩ | ⟨hn, h2⟩⟩
        · exact .inl ⟨List.mem_cons_of_mem _ hm, hne⟩
        · exact .inr ⟨h1, .inl ⟨ws, List.mem_cons_of_mem _ hws, h2⟩⟩
        · exact .inr ⟨h1, .inr ⟨by simp [hn, Ne.symm h], h2⟩⟩

theorem Grouped.appendToBucket {L : List ProjectAlert} {m : List (String × List ProjectAlert)} (hm : Grouped L m)
    (v : ProjectAlert) : Grouped (L ++ [v]) (appendToBucket v m) where
  nodup := by
    rw [keys_appendToBucket]
    split
    · exact hm.nodup
    · exact hm.nodup.append (List.nodup_singleton _) (List.disjoint_singleton.2 ‹_›)
  bucket e he := by
    rcases mem_appendToBucket hm.nodup he with ⟨hem, hne⟩ | ⟨h1, ⟨vs, hvs, h2⟩ | ⟨hn, h2⟩⟩
    · simp [hm.bucket e hem, Ne.symm hne]
    · rw [h2, h1, show vs = _ from hm.bucket _ hvs]
      simp
    · have : ∀ w ∈ L, w.spec.projectName ≠ v.spec.projectName := fun w hw h => hn (h ▸ hm.covers w hw)
      rw [h2, h1, List.filter_append, List.filter_eq_nil_iff.2 (by simpa using this)]
      simp
  covers w hw := by
    rw [keys_appendToBucket]
    rcases List.mem_append.1 hw with hw | hw
    · split <;> simp [hm.covers w hw]
    · simp at hw; subst hw; split <;> simp_all

theorem grouped_groupByProject (c : String) (alerts : List ProjectAlert) :
    Grouped (alerts.filter (objectInCluster c)) (groupByProject c alerts) := by
  suffices ∀ L m, Grouped L m → Grouped (L ++ alerts.filter (objectInCluster c))
      (alerts.foldl (fun m v => if objectInCluster c v then AlertUpgrade.appendToBucket v m else m) m) from
    this [] [] ⟨List.nodup_nil, by simp, by simp⟩
  induction alerts with
  | nil => simp
  | cons v vs ih =>
    intro L m hm
    by_cases hv : objectInCluster c v
    · simpa [hv] using ih _ _ (hm.appendToBucket v)
    · simp [hv, ih _ _ hm]


/-! ## The visiting order -/

/-- The alerts the nested loops of `migrateLegacyProjectAlert` visit, in visiting order. -/
def projectPlan (clusterName : String) (order : MapOrder) (alerts : List ProjectAlert) : List ProjectAlert :=
  (order.visit (groupByProject clusterName alerts)).flatMap Prod.snd

theorem flatMap_of_single_key {β : Type} {l : List (String × β)} {f : String × β → List ProjectAlert} {k0 : String}
    {X : List ProjectAlert} (hl : (l.map Prod.fst).Nodup) (hf : ∀ e ∈ l, f e = if e.1 = k0 then X else []) :
    l.flatMap f = if k0 ∈ l.map Prod.fst then X else [] := by
  induction l with
  | nil => simp
  | cons e l ih =>
    rw [List.map_cons, List.nodup_cons] at hl
    rw [List.flatMap_cons, hf e (List.mem_cons_self _ _), ih hl.2 fun e' he' => hf e' (List.mem_cons_of_mem _ he')]
    by_cases he : e.1 = k0
    · subst he; simp [hl.1]
    · rw [if_neg he, List.nil_append, List.map_cons]
      by_cases hk : k0 ∈ l.map Prod.fst
      · rw [if_pos hk, if_pos (List.mem_cons_of_mem _ hk)]
      · rw [if_neg hk, if_neg (by simp [hk, Ne.symm he])]

theorem filter_projectPlan {c : String} (order : MapOrder) (alerts : List ProjectAlert) {P : ProjectAlert → Bool}
    {k0 : String} (hP : ∀ w ∈ alerts, objectInCluster c w → P w → w.spec.projectName = k0) :
    (projectPlan c order alerts).filter P = (alerts.filter (objectInCluster c)).filter P := by
  have hg := grouped_groupByProject c alerts
  have hperm := (order.perm (groupByProject c alerts)).map Prod.fst
  have hL : ∀ w ∈ alerts.filter (objectInCluster c), P w → w.spec.projectName = k0 := by
    intro w hw; rw [List.mem_filter] at hw; exact hP w hw.1 hw.2
  rw [projectPlan, List.filter_flatMap, flatMap_of_single_key (hperm.nodup_iff.2 hg.nodup)]
  · split
    · rfl
    · next hk =>
      refine (List.filter_eq_nil_iff.2 fun w hw hPw => hk ?_).symm
      exact hperm.mem_iff.2 (hL w hw hPw ▸ hg.covers w hw)
  · intro e he
    rw [hg.bucket e ((order.perm _).mem_iff.1 he), List.filter_filter]
    split
    · next he1 =>
      refine List.filter_congr fun w hw => ?_
      by_cases hPw : P w <;> simp [hPw, he1, hL w hw]
    · next he1 =>
      refine List.filter_eq_nil_iff.2 fun w hw h => he1 ?_
      simp only [Bool.and_eq_true, decide_eq_true_eq] at h
      exact h.2 ▸ hL w hw h.1


/-- A project ID the cluster owns is the cluster's name, a colon, and the project's name. -/
theorem projectName_of_objectInCluster {c : String} {v : ProjectAlert} (h : objectInCluster c v = true) :
    v.spec.projectName = c ++ ":" ++ (refParse v.spec.projectName).2 := by
  have hsplit := List.takeWhile_append_dropWhile (· ≠ ':') v.spec.projectName.toList
  have hhead := List.head_dropWhile_not (· ≠ ':') v.spec.projectName.toList
  unfold objectInCluster at h
  unfold refParse
  rw [List.span_eq_take_drop] at h ⊢
  revert hsplit hhead h
  generalize List.dropWhile (· ≠ ':') v.spec.projectName.toList = d
  rcases d with _ | ⟨x, name⟩
  · simp
  · intro h hsplit hhead
    have hx : x = ':' := by simpa using hhead (List.cons_ne_nil _ _)
    rw [beq_iff_eq] at h
    apply String.ext
    rw [hx] at hsplit
    simpa [← h] using hsplit.symm


theorem mem_projectPlan {c : String} {order : MapOrder} {alerts : List ProjectAlert} {v : ProjectAlert} :
    v ∈ projectPlan c order alerts ↔ v ∈ alerts ∧ objectInCluster c v = true := by
  have hg := grouped_groupByProject c alerts
  rw [projectPlan, List.mem_flatMap, ← List.mem_filter]
  constructor
  · rintro ⟨e, he, hv⟩
    rw [hg.bucket e ((order.perm _).mem_iff.1 he)] at hv
    exact (List.mem_filter.1 hv).1
  · intro hv
    obtain ⟨e, he, hk⟩ := List.mem_map.1 (hg.covers v hv)
    refine ⟨e, (order.perm _).mem_iff.2 he, ?_⟩
    rw [hg.bucket e he]
    exact List.mem_filter.2 ⟨hv, by simp [hk]⟩

/-- The buckets run in visiting order are one loop over `projectPlan`, each alert migrated under its own project
ID. -/
theorem forEach_buckets (c : String) (order : MapOrder) (alerts : List ProjectAlert) :
    forEach migrateProjectBucket (order.visit (groupByProject c alerts)) =
      forEach (fun v => migrateProjectAlert v.spec.projectName (refParse v.spec.projectName).2 v)
        (projectPlan c order alerts) := by
  refine forEach_flatMap (fun pid v => migrateProjectAlert pid (refParse pid).2 v) _ fun e he v hv => ?_
  rw [(grouped_groupByProject c alerts).bucket e ((order.perm _).mem_iff.1 he)] at hv
  rw [of_decide_eq_true (List.mem_filter.1 hv).2]

/-! ## The loops -/

/-- What `oldClusterAlerts.List(metav1.ListOptions{})` returns: the legacy alerts of the cluster's namespace. -/
def listedClusterAlerts (clusterName : String) (s : Store) : List ClusterAlert :=
  s.readOnly.clusterAlerts.filter (·.meta.ns == clusterName)

/-- The rule step of an iteration of the cluster loop. -/
def clusterRuleStep (clusterName : String) (s : Store) (v : ClusterAlert) : Store :=
  s.upsert .clusterAlertRule (newClusterRule clusterName v)

/-- The rule step of an iteration of the project loop. -/
def projectRuleStep (s : Store) (v : ProjectAlert) : Store :=
  s.upsert .projectAlertRule (newProjectRule v.spec.projectName (refParse v.spec.projectName).2 v)

theorem migrateLegacyClusterAlert_exec (E : AlertService) (s : Store) :
    (migrateLegacyClusterAlert E).exec s =
      (.returned none, (listedClusterAlerts E.clusterName s).foldl (clusterStep E.clusterName) s) := by
  simp only [migrateLegacyClusterAlert, lift_bind, exec_call, Store.answer]
  exact forEach_exec _ _ fun v _ σ => migrateClusterAlert_exec _ v σ

theorem migrateLegacyClusterAlert_wp (E : AlertService) (s : Store) :
    wp (migrateLegacyClusterAlert E) (fun out s' _ =>
      out = .returned none ∧ s' = (listedClusterAlerts E.clusterName s).foldl (clusterStep E.clusterName) s ∨
      out ≠ .returned none ∧
        Stopped (clusterStep E.clusterName) (clusterRuleStep E.clusterName) (listedClusterAlerts E.clusterName s) s s')
      s := by
  rw [migrateLegacyClusterAlert, lift_bind, wp_call_iff]
  refine ⟨fun m => by simp [stopped_self], ?_⟩
  refine forEach_wp _ _ fun v _ σ => wp_mono (migrateClusterAlert_wp _ v σ) ?_
  rintro out σ' - (h | ⟨⟨e, rfl⟩, h⟩)
  · exact .inl h
  · exact .inr ⟨by simp, h⟩

theorem migrateLegacyProjectAlert_exec (E : AlertService) (order : MapOrder) (s : Store) :
    (migrateLegacyProjectAlert E order).exec s =
      (.returned none, (projectPlan E.clusterName order s.readOnly.projectAlerts).foldl projectStep s) := by
  simp only [migrateLegacyProjectAlert, lift_bind, exec_call, Store.answer, forEach_buckets]
  exact forEach_exec _ _ fun v _ σ => migrateProjectAlert_exec v σ

theorem migrateLegacyProjectAlert_wp (E : AlertService) (order : MapOrder) (s : Store) :
    wp (migrateLegacyProjectAlert E order) (fun out s' _ =>
      out = .returned none ∧ s' = (projectPlan E.clusterName order s.readOnly.projectAlerts).foldl projectStep s ∨
      out ≠ .returned none ∧
        Stopped projectStep projectRuleStep (projectPlan E.clusterName order s.readOnly.projectAlerts) s s') s := by
  rw [migrateLegacyProjectAlert, lift_bind, wp_call_iff]
  refine ⟨fun m => by simp [stopped_self], ?_⟩
  simp only [Store.answer, forEach_buckets]
  exact forEach_wp _ _ fun v _ σ => migrateProjectAlert_wp v σ

end AlertUpgrade
