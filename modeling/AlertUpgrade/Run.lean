import AlertUpgrade.App

/-!
# Every run of `Upgrade`

`Upgrade` runs three blocks: `upgradeTarget` (reads only), the `//migrate legacy` block, the app block. This module
puts their specs together:

* no call before the app block writes an app (`migrateLegacy_noAppUpdate`);
* with every call answered, `Upgrade` returns what the app block returns from `afterMigration`, the store the
  migration block leaves (`upgrade_exec`);
* every run ends in `UpgradeEnd` (`upgrade_wp`): before any write, stopped in the migration block, or in the app
  block run from `afterMigration`.
-/

namespace AlertUpgrade

open Prog

/-! ## The calls of the first two blocks -/

section Calls

variable {P : Call → Prop} {α : Type}

theorem allCalls_except {ε γ : Type} {f : Except ε γ → Prog α} (he : ∀ e, AllCalls P (f (.error e)))
    (ho : ∀ a, AllCalls P (f (.ok a))) : ∀ r, AllCalls P (f r)
  | .error e => he e
  | .ok a => ho a

theorem allCalls_forEach {β : Type} {body : β → Prog (Option String)} (h : ∀ v, AllCalls P (body v)) :
    ∀ vs, AllCalls P (forEach body vs)
  | [] => trivial
  | v :: vs => allCalls_bind (h v) fun r => by cases r <;> simp [AllCalls, allCalls_forEach h vs]

/-- Calls that write no app. -/
def NoAppUpdate (c : Call) : Prop := c.isAppUpdate = false

theorem allCalls_ite {c : Prop} [Decidable c] {x y : Prog α} (hx : AllCalls P x) (hy : AllCalls P y) :
    AllCalls P (if c then x else y) := by
  split
  · exact hx
  · exact hy

theorem isAppUpdate_update {k : Kind} (hk : k ≠ .app) (r : k.Obj) : (Call.update k r).isAppUpdate = false := by
  cases k <;> simp_all [Call.isAppUpdate]

theorem migrateRule_noAppUpdate {k : Kind} (hk : k ≠ .app) (r : k.Obj) (v : ObjectMeta) :
    AllCalls NoAppUpdate (migrateRule k r v) := by
  refine ⟨rfl, allCalls_except (fun e => ?_) fun o => ⟨isAppUpdate_update hk _, allCalls_except (fun _ => trivial)
    fun _ => trivial⟩⟩
  show AllCalls _ (if _ then _ else _)
  split
  · trivial
  · exact ⟨rfl, allCalls_except (fun _ => allCalls_ite trivial trivial) fun _ => trivial⟩

theorem migrateLegacy_noAppUpdate (E : AlertService) (order : MapOrder) (currentVersion : String) :
    AllCalls NoAppUpdate (migrateLegacy E order currentVersion) := by
  have hc : ∀ v, AllCalls NoAppUpdate (migrateClusterAlert E.clusterName v) := fun v =>
    allCalls_bind (migrateRule_noAppUpdate (by decide) _ _) fun r => by
      cases r
      · exact ⟨rfl, allCalls_except (fun _ => allCalls_ite trivial trivial) fun _ => trivial⟩
      · trivial
  have hp : ∀ pid name v, AllCalls NoAppUpdate (migrateProjectAlert pid name v) := fun pid name v =>
    allCalls_bind (migrateRule_noAppUpdate (by decide) _ _) fun r => by
      cases r
      · exact ⟨rfl, allCalls_except (fun _ => allCalls_ite (by split <;> trivial) trivial) fun _ => trivial⟩
      · trivial
  unfold migrateLegacy
  split
  · refine allCalls_bind ⟨rfl, allCalls_except (fun _ => trivial) fun _ => allCalls_forEach hc _⟩ fun r => ?_
    cases r
    · refine allCalls_bind ⟨rfl, allCalls_except (fun _ => trivial)
        fun _ => allCalls_forEach (fun e => allCalls_forEach (hp _ _) _) _⟩ fun r => ?_
      cases r
      · exact ⟨rfl, allCalls_except (fun _ => allCalls_ite trivial trivial) fun _ => trivial⟩
      · trivial
    · trivial
  · trivial

end Calls

/-! ## The first block -/

theorem upgradeTarget_exec_store (E : AlertService) (s : Store) : ((upgradeTarget E).exec s).2 = s := by
  unfold upgradeTarget
  split
  · rfl
  · simp only [lift_bind, exec_call, Store.answer]
    split <;> (try split) <;> rfl

theorem upgradeTarget_exec_congr (E : AlertService) {s s' : Store} (h : s'.readOnly = s.readOnly) :
    ((upgradeTarget E).exec s').1 = ((upgradeTarget E).exec s).1 := by
  unfold upgradeTarget
  split
  · rfl
  · simp only [lift_bind, exec_call, Store.answer, h]
    split <;> (try split) <;> rfl

/-- Every run of the first block writes nothing and returns what the run with every call answered returns, or an
error. -/
theorem upgradeTarget_wp (E : AlertService) (s : Store) :
    wp (upgradeTarget E) (fun out s' cs => s' = s ∧ (∀ c ∈ cs, NoAppUpdate c) ∧
      (out = ((upgradeTarget E).exec s).1 ∨ ∃ e, out = .returned (.error e))) s := by
  unfold upgradeTarget
  split
  · exact (wp_pure _).2 ⟨rfl, fun _ h => absurd h (List.not_mem_nil _), .inl rfl⟩
  · rw [lift_bind, wp_call_iff]
    have hc : ∀ key, ∀ c ∈ [Call.templateGet key], NoAppUpdate c := fun _ _ h => by
      rw [List.mem_singleton.1 h]
      rfl
    refine ⟨fun m => (wp_pure _).2 ⟨rfl, hc _, .inr ⟨_, rfl⟩⟩, ?_⟩
    simp only [Store.answer, exec_call]
    split <;> (try split) <;> exact (wp_pure _).2 ⟨rfl, hc _, .inl rfl⟩

/-! ## With every call answered -/

/-- The store the `//migrate legacy` block leaves when every call is answered, the version check included. -/
def afterMigration (E : AlertService) (order : MapOrder) (currentVersion : String) (s : Store) : Store :=
  if stringsContains currentVersion monitoringMarker then s else migrated E order s

section After

variable {E : AlertService} {order : MapOrder} {currentVersion : String} {s s' : Store}

@[simp] theorem afterMigration_readOnly : (afterMigration E order currentVersion s).readOnly = s.readOnly := by
  unfold afterMigration
  split <;> simp

@[simp] theorem afterMigration_app : (afterMigration E order currentVersion s).tables .app = s.tables .app := by
  unfold afterMigration
  split <;> simp

end After

theorem upgrade_exec (E : AlertService) (order : MapOrder) (currentVersion : String) (s : Store) :
    (upgrade E order currentVersion).exec s = match ((upgradeTarget E).exec s).1 with
      | .returned (.ok (cat, ext, ver)) => (upgradeApp E cat ext ver).exec (afterMigration E order currentVersion s)
      | .returned (.error e) => (.returned (.error e), s)
      | .panicked m => (.panicked m, s) := by
  have ht : (upgradeTarget E).exec s = (((upgradeTarget E).exec s).1, s) :=
    Prod.ext rfl (upgradeTarget_exec_store E s)
  rw [upgrade, exec_bind, ht]
  rcases ((upgradeTarget E).exec s).1 with (e | ⟨cat, ext, ver⟩) | m
  · rfl
  · simp only [exec_bind, migrateLegacy_exec]
    rfl
  · rfl

/-! ## Every run -/

/-- How a run of `Upgrade` from `s` ends: before any write, stopped in the migration block, or as the app block run
from `afterMigration` ends. -/
def UpgradeEnd (E : AlertService) (order : MapOrder) (currentVersion : String) (s : Store)
    (out : Outcome (Except String String)) (s' : Store) (cs : List Call) : Prop :=
  (s' = s ∧ ∀ c ∈ cs, NoAppUpdate c) ∨
  ∃ cat ext ver, ((upgradeTarget E).exec s).1 = .returned (.ok (cat, ext, ver)) ∧
    ((stringsContains currentVersion monitoringMarker = false ∧ MigReach E order s s' ∧
        s'.namespaces = s.namespaces ∧ s'.tables .app = s.tables .app ∧ ∀ c ∈ cs, NoAppUpdate c) ∨
      AppEnd E cat ext ver (afterMigration E order currentVersion s) out s' cs)

theorem AppCalls.append_left {E : AlertService} {cat ext : String} {t : Store} {pre cs : List Call}
    (h : AppCalls E cat ext t cs) (hpre : ∀ c ∈ pre, NoAppUpdate c) : AppCalls E cat ext t (pre ++ cs) where
  write r hr := h.write r ((List.mem_append.1 hr).resolve_left fun h' => by
    have := hpre _ h'
    simp [NoAppUpdate, Call.isAppUpdate] at this)
  once := by
    rw [List.filter_append, List.filter_eq_nil_iff.2 fun c hc => by rw [hpre c hc]; exact Bool.false_ne_true]
    exact h.once

theorem Call.eq_of_isAppUpdate {c : Call} (h : c.isAppUpdate = true) : ∃ r, c = .update .app r := by
  rcases c with _ | _ | _ | _ | _ | ⟨k, r⟩ <;> try simp [Call.isAppUpdate] at h
  cases k <;> simp_all [Call.isAppUpdate]

/-- Calls whose app updates each write a `W`: none where no `W` exists. -/
theorem noAppUpdate_of_writes {W : App → App → Prop} {cs : List Call} (h : ∀ r, Call.update .app r ∈ cs → ∃ a, W a r)
    (hno : ∀ a r, ¬ W a r) : ∀ c ∈ cs, NoAppUpdate c := by
  intro c hc
  cases hu : c.isAppUpdate
  · exact hu
  · obtain ⟨r, rfl⟩ := Call.eq_of_isAppUpdate hu
    obtain ⟨a, hw⟩ := h r hc
    exact absurd hw (hno a r)

theorem wp_noAppUpdate {α : Type} {p : Prog α} (h : AllCalls NoAppUpdate p) (s : Store) :
    wp p (fun _ _ cs => ∀ c ∈ cs, NoAppUpdate c) s :=
  fun o _ hc => mem_run_calls h o s hc

theorem upgrade_wp (E : AlertService) (order : MapOrder) (currentVersion : String) (s : Store) :
    wp (upgrade E order currentVersion) (UpgradeEnd E order currentVersion s) s := by
  refine wp_bind (wp_mono (upgradeTarget_wp E s) ?_)
  rintro out s₁ cs₁ ⟨rfl, hcs₁, hout⟩
  rcases ht : ((upgradeTarget E).exec s₁).1 with (e | ⟨cat, ext, ver⟩) | m <;> rw [ht] at hout <;>
    rcases hout with rfl | ⟨e', rfl⟩ <;>
    first
    | (simp only [bindPost, ret_eq_pure, wp_pure, List.append_nil]; exact .inl ⟨rfl, hcs₁⟩)
    | skip
  simp only [bindPost]
  refine wp_bind (wp_mono (wp_and (migrateLegacy_wp E order currentVersion s₁)
    (wp_noAppUpdate (migrateLegacy_noAppUpdate E order currentVersion) s₁)) ?_)
  rintro out s₂ cs₂ ⟨⟨rfl, rfl⟩ | ⟨hne, hm, hr, hn, ha⟩, hcs₂⟩
  · simp only [bindPost]
    refine wp_mono (upgradeApp_wp E cat ext ver _) fun out s₃ cs₃ h => .inr ⟨cat, ext, ver, ht, .inr ?_⟩
    rw [← List.append_assoc]
    exact ⟨h.1.append_left fun c hc => (List.mem_append.1 hc).elim (hcs₁ c) (hcs₂ c), h.2⟩
  · have hend : ∀ out', UpgradeEnd E order currentVersion s₁ out' s₂ (cs₁ ++ cs₂) := fun _ =>
      .inr ⟨cat, ext, ver, ht, .inl ⟨hm, hr, hn, ha, fun c hc => (List.mem_append.1 hc).elim (hcs₁ c) (hcs₂ c)⟩⟩
    rcases out with (_ | e) | m
    · exact absurd rfl hne
    · simpa [bindPost] using hend _
    · exact hend _

theorem UpgradeEnd.readOnly {E : AlertService} {order : MapOrder} {currentVersion : String} {s s' : Store}
    {out : Outcome (Except String String)} {cs : List Call}
    (h : UpgradeEnd E order currentVersion s out s' cs) : s'.readOnly = s.readOnly := by
  rcases h with ⟨rfl, -⟩ | ⟨cat, ext, ver, -, ⟨-, hr, -⟩ | ⟨-, rfl | ⟨a, r, -, -, rfl⟩⟩⟩
  · rfl
  · exact hr.readOnly
  · exact afterMigration_readOnly
  · simp

end AlertUpgrade
