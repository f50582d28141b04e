import AlertUpgrade.Race

/-!
# Each block of `Upgrade` against a concurrent run

The blocks of one run of `Upgrade`, each `Safe` against another run from the same store:

- a program whose calls are answered everywhere as in the single run returns what the single run returns
  (`safe_quiet`); the reads of the target are such a program (`safe_reads`);
- the `//migrate legacy` block returns `nil`, and where the runs migrate, every rule and group of both loops is
  migrated and `cattle-alerting` is gone (`safe_migrateLegacy`, `MigDone`); an `AlreadyExists` from the other run's
  create is tolerated;
- the app block returns what the single run's app block returns: without a write due, every call is answered as in
  the single run; with one due, it writes the new app over the old one or finds the app the other run wrote
  (`safe_upgradeApp`, `AppDone`).
-/

namespace AlertUpgrade

open Prog

/-! ## Calls that only read -/

/-- The calls answered from the read-only part of the store. -/
def Call.IsRead : Call → Prop
  | .templateGet _ | .clusterAlertsList _ | .projectAlertsList | .projectsList _ | .clusterGet _ | .catalogGet _ => True
  | _ => False

theorem Call.IsRead.answer {c : Call} (hc : c.IsRead) (σ : Store) : (σ.answer c).2 = σ ∧ c.writes σ = none := by
  cases c <;> first | exact hc.elim | exact ⟨rfl, rfl⟩

theorem Call.IsRead.answer_congr {c : Call} (hc : c.IsRead) {σ σ' : Store} (h : σ.readOnly = σ'.readOnly) :
    (σ.answer c).1 = (σ'.answer c).1 := by
  cases c <;> first | exact hc.elim | simp [Store.answer, h]

section Reads

variable {E : AlertService} {order : MapOrder} {currentVersion : String} {s : Store} {me : Bool}

variable (E order currentVersion s me) in
/-- A call that every shared state in `Inv` answers as `t` does, changing nothing, and that leaves `t` as it is. -/
def Quiet (t : Store) (c : Call) : Prop :=
  (t.answer c).2 = t ∧
    ∀ st, Inv E order currentVersion s st → (st.store.answer c).1 = (t.answer c).1 ∧ st.step me c = st

theorem Call.IsRead.quiet {c : Call} (hc : c.IsRead) {t : Store} (ht : t.readOnly = s.readOnly) :
    Quiet E order currentVersion s me t c :=
  ⟨(hc.answer t).1, fun _ hinv => ⟨hc.answer_congr (hinv.readOnly.trans ht.symm),
    Shared.step_read (hc.answer _).1 (hc.answer _).2⟩⟩

/-- A program whose run from `t` makes only quiet calls returns, however the other run interleaves, what it returns
from `t`. -/
theorem safe_quiet {α : Type} {p : Prog α} {t : Store}
    (hq : ∀ c ∈ (p.run [] t).calls, Quiet E order currentVersion s me t c)
    {P : Shared → Prop} (hP : ∀ st st', P st → Changes (!me) st st' → P st') {st : Shared}
    (hinv : Inv E order currentVersion s st) (hst : P st) :
    SafeRun E order currentVersion s me p (fun out st' => out = (p.exec t).1 ∧ Inv E order currentVersion s st' ∧
      P st') st := by
  induction p generalizing st with
  | pure a => exact fun st' h => ⟨rfl, (h hinv).1, hP _ _ hst (h hinv).2⟩
  | panic m => exact fun st' h => ⟨rfl, (h hinv).1, hP _ _ hst (h hinv).2⟩
  | call c k ih =>
    have hc := hq c (List.mem_cons_self _ _)
    refine safe_call.2 fun st₁ h₁ => ?_
    obtain ⟨hinv₁, hc₁⟩ := h₁ hinv
    rw [(hc.2 st₁ hinv₁).2, (hc.2 st₁ hinv₁).1]
    refine ⟨guar_refl me st₁,
      (ih _ (fun c' hc' => hq c' ?_) hinv₁ (hP _ _ hst hc₁)).mono fun o st' h => ⟨?_, h.2⟩⟩
    · show c' ∈ c :: ((k (t.answer c).1).run [] (t.answer c).2).calls
      rw [hc.1]
      exact List.mem_cons_of_mem _ hc'
    · rw [h.1, exec_call, hc.1]

/-- A program that only reads returns, however the other run interleaves, what it returns from any store with the
same read-only data. -/
theorem safe_reads {α : Type} {p : Prog α} (hp : AllCalls Call.IsRead p) {t : Store} (ht : t.readOnly = s.readOnly)
    {P : Shared → Prop} (hP : ∀ st st', P st → Changes (!me) st st' → P st') {st : Shared}
    (hinv : Inv E order currentVersion s st) (hst : P st) :
    SafeRun E order currentVersion s me p (fun out st' => out = (p.exec t).1 ∧ Inv E order currentVersion s st' ∧
      P st') st :=
  safe_quiet (fun _ hc => (mem_run_calls hp [] t hc).quiet ht) hP hinv hst

theorem upgradeTarget_reads (E : AlertService) : AllCalls Call.IsRead (upgradeTarget E) := by
  unfold upgradeTarget
  split
  · trivial
  · rw [lift_bind]
    exact ⟨trivial, allCalls_except (fun _ => trivial) fun _ => by dsimp only; split <;> trivial⟩

end Reads

/-! ## The app block -/

section App

variable {E : AlertService} {order : MapOrder} {currentVersion : String} {s : Store} {me : Bool}
  {cat ext ver : String} {a r : App} {st st' : Shared}

/-- The app write due in `s` is unique: the system project's app, with the two fields set. -/
theorem AppWrite.unique {a' r' : App} (hw : AppWrite E cat ext s a r) (hw' : AppWrite E cat ext s a' r') :
    a' = a ∧ r' = r := by
  obtain ⟨p, hp, ha⟩ := hw.fetched
  obtain ⟨p', hp', ha'⟩ := hw'.fetched
  rw [hp, Option.some.injEq] at hp'
  subst hp'
  rw [ha, Option.some.injEq] at ha'
  subst ha'
  exact ⟨rfl, Option.some.inj (hw'.newApp_eq.symm.trans hw.newApp_eq)⟩

/-- Before the write, the record at the written key is the fetched app. -/
theorem AppWrite.get_old (hw : AppWrite E cat ext s a r) : (s.tables .app).get (Kind.key .app r) = some a := by
  obtain ⟨p, hp, ha⟩ := hw.fetched
  obtain ⟨q, hq, hkey⟩ := hw.key
  rw [hp, Option.some.injEq] at hq
  subst hq
  rw [hkey, ha]

/-- Under the target `(cat, ext, ver)`, an app record holds its old value or the app the due write writes. -/
theorem allowed_app (ht : ((upgradeTarget E).exec s).1 = .returned (.ok (cat, ext, ver))) {κ : Key}
    {x : Option App} (h : Allowed E order currentVersion s .app κ x) :
    x = (s.tables .app).get κ ∨ ∃ a r, AppWrite E cat ext s a r ∧ κ = Kind.key .app r ∧ x = some r := by
  rcases h with h | ⟨cat', ext', ver', a, r, ht', hw, hκ, hx⟩
  · exact .inl h
  · rw [ht] at ht'
    cases ht'
    exact .inr ⟨a, r, hw, hκ, hx⟩

/-- With no write due, every app record holds its old value. -/
theorem app_get_of_not_due (ht : ((upgradeTarget E).exec s).1 = .returned (.ok (cat, ext, ver)))
    (hdue : ∀ a r, ¬ AppWrite E cat ext s a r) (hinv : Inv E order currentVersion s st) (κ : Key) :
    (st.store.tables .app).get κ = (s.tables .app).get κ := by
  rcases allowed_app ht (hinv.allowed .app κ) with h | ⟨a, r, hw, -, -⟩
  · exact h
  · exact absurd hw (hdue a r)

/-- Where the write is due, the record holds the fetched app or the new one. -/
theorem app_get_of_due (ht : ((upgradeTarget E).exec s).1 = .returned (.ok (cat, ext, ver)))
    (hw : AppWrite E cat ext s a r) (hinv : Inv E order currentVersion s st) :
    (st.store.tables .app).get (Kind.key .app r) = some a ∨ (st.store.tables .app).get (Kind.key .app r) = some r := by
  rcases allowed_app ht (hinv.allowed .app (Kind.key .app r)) with h | ⟨a', r', hw', hκ, hx⟩
  · exact .inl (h.trans hw.get_old)
  · obtain ⟨-, rfl⟩ := hw.unique hw'
    exact .inr hx

/-- Where an app write is due, its record is tagged, and holds the new app if run `me` wrote it last. -/
def AppDone (E : AlertService) (cat ext : String) (s : Store) (me : Bool) (st : Shared) : Prop :=
  ∀ a r, AppWrite E cat ext s a r → st.writer .app (Kind.key .app r) ≠ none ∧
    (st.writer .app (Kind.key .app r) = some me → (st.store.tables .app).get (Kind.key .app r) = some r)

theorem AppDone.rely (h : AppDone E cat ext s me st) (hc : Changes (!me) st st') : AppDone E cat ext s me st' :=
  fun a r hw => by
    by_cases ho : st'.writer .app (Kind.key .app r) = some (!me)
    · exact ⟨by simp [ho], fun h' => absurd (h'.symm.trans ho) (ne_some_not me)⟩
    · rw [(hc.eq_of_ne ho).1, (hc.eq_of_ne ho).2]
      exact h a r hw

/-- Run `me` wrote the due app. -/
theorem appDone_write (hw : AppWrite E cat ext s a r) : AppDone E cat ext s me (st.write me .app r) := fun a' r' hw' => by
  obtain ⟨-, rfl⟩ := hw.unique hw'
  rw [Shared.write_writer_self, if_pos rfl, Shared.write_get_self, if_pos rfl]
  exact ⟨Option.some_ne_none _, fun _ => rfl⟩

/-- The other run wrote the due app. -/
theorem appDone_of_found (hw : AppWrite E cat ext s a r) (hinv : Inv E order currentVersion s st)
    (hv : (st.store.tables .app).get (Kind.key .app r) = some r) (hu : Untouched me .app st) :
    AppDone E cat ext s me st := fun a' r' hw' => by
  obtain ⟨-, rfl⟩ := hw.unique hw'
  refine ⟨fun hn => hw.ne (Option.some.inj ?_), fun h => absurd h (hu _)⟩
  rw [← hv, hinv.unwritten .app _ hn, hw.get_old]

/-- The calls of the app block: reads, the app fetch, and the app update. -/
theorem upgradeApp_calls (E : AlertService) (cat ext ver : String) :
    AllCalls (fun c => c.IsRead ∨ (∃ κ, c = .get .app κ) ∨ ∃ r, c = .update .app r)
      (upgradeApp E cat ext ver) := by
  unfold upgradeApp
  simp only [lift_bind]
  refine ⟨.inl trivial, allCalls_except (fun _ => trivial) fun ps => ?_⟩
  dsimp only
  split <;> try exact trivial
  refine ⟨.inr (.inl ⟨_, rfl⟩), allCalls_except (fun _ => by dsimp only; split <;> trivial) fun a => ?_⟩
  dsimp only
  split <;> try exact trivial
  split <;> try exact trivial
  refine ⟨.inl trivial, allCalls_except (fun _ => trivial) fun c => ?_⟩
  dsimp only
  split <;> try exact trivial
  refine ⟨.inl trivial, allCalls_except (fun _ => trivial) fun k => ?_⟩
  dsimp only
  split <;> try exact trivial
  exact ⟨.inr (.inr ⟨_, rfl⟩), allCalls_except (fun _ => trivial) fun _ => trivial⟩

/-- Where the write is due, the block returns the new version, however the other run interleaves: it writes the new
app over the old one, or finds the app the other run wrote. -/
theorem safe_upgradeApp_due (ht : ((upgradeTarget E).exec s).1 = .returned (.ok (cat, ext, ver)))
    (hw : AppWrite E cat ext s a r) {P : Shared → Prop} (hP : ∀ st st', P st → Changes (!me) st st' → P st')
    (hPw : ∀ st, P st → P (st.write me .app r)) (hinv : Inv E order currentVersion s st) (hu : Untouched me .app st)
    (hp : P st) :
    SafeRun E order currentVersion s me (upgradeApp E cat ext ver) (fun out st' => out = .returned (.ok ver) ∧
      Inv E order currentVersion s st' ∧ AppDone E cat ext s me st' ∧ P st') st := by
  obtain ⟨p, hp₀, -⟩ := hw.fetched
  obtain ⟨ps, hps⟩ := systemProject_eq_some hp₀
  obtain ⟨q, hq, hkey⟩ := hw.key
  rw [hp₀, Option.some.injEq] at hq
  subst hq
  obtain ⟨cluster, hc, hcr⟩ := hw.clusterReady
  obtain ⟨catalog, hk, hk₁, hk₂, hk₃⟩ := hw.catalogReady
  have hUP : ∀ st st', (Untouched me .app st ∧ P st) → Changes (!me) st st' → Untouched me .app st' ∧ P st' :=
    fun _ _ h hc => ⟨h.1.rely hc, hP _ _ h.2 hc⟩
  unfold upgradeApp
  simp only [lift_bind]
  refine safe_stay (fun _ => by exact ⟨rfl, rfl⟩) hUP hinv ⟨hu, hp⟩ fun st₁ hinv₁ hp₁ => ?_
  simp only [Store.answer, hinv₁.readOnly, hps, List.map_cons]
  refine safe_stay (fun _ => by exact ⟨rfl, rfl⟩) hUP hinv₁ hp₁ fun st₂ hinv₂ ⟨hu₂, hp₂⟩ => ?_
  rcases app_get_of_due ht hw hinv₂ with hv | hv <;> rw [hkey] at hv
  · simp only [Store.answer, Table.getE, hv, hw.newApp_eq, if_neg hw.ne]
    refine safe_stay (fun _ => by exact ⟨rfl, rfl⟩) hUP hinv₂ ⟨hu₂, hp₂⟩ fun st₃ hinv₃ hp₃ => ?_
    simp only [Store.answer, lookupE, hinv₃.readOnly, hc, hcr, Bool.not_true, Bool.false_eq_true, ite_false]
    refine safe_stay (fun _ => by exact ⟨rfl, rfl⟩) hUP hinv₃ hp₃ fun st₄ hinv₄ hp₄ => ?_
    simp only [Store.answer, lookupE, hinv₄.readOnly, hk, hk₁, hk₂, hk₃, Bool.not_true, Bool.or_self,
      Bool.false_eq_true, ite_false]
    refine safe_call.2 fun st₅ h₅ => ?_
    obtain ⟨hinv₅, hc₅⟩ := h₅ hinv₄
    have hsome : ((st₅.store.tables .app).get (Kind.key .app r)).isSome := by
      rcases app_get_of_due ht hw hinv₅ with h | h <;> simp [h]
    have hg : Guar E order currentVersion s me st₅ (st₅.write me .app r) :=
      guar_write (.inr ⟨cat, ext, ver, a, r, ht, hw, rfl, rfl⟩)
    rw [Shared.step_update_of_isSome hsome, answer_update_of_isSome hsome]
    refine ⟨hg, fun st₆ h₆ => ?_⟩
    obtain ⟨hinv₆, hc₆⟩ := h₆ (hg hinv₅).1
    exact ⟨rfl, hinv₆, (appDone_write hw).rely hc₆, hP _ _ (hPw _ (hP _ _ hp₄.2 hc₅)) hc₆⟩
  · simp only [Store.answer, Table.getE, hv, newApp_newApp hw.newApp_eq, if_pos rfl]
    refine fun st₃ h₃ => ⟨rfl, (h₃ hinv₂).1, ?_, hP _ _ hp₂ (h₃ hinv₂).2⟩
    exact (appDone_of_found hw hinv₂ (hkey ▸ hv) hu₂).rely (h₃ hinv₂).2

/-- The app block, however the other run interleaves: it returns what it returns from the store the single run has
after the migration, and where the write is due, it is done. -/
theorem safe_upgradeApp (ht : ((upgradeTarget E).exec s).1 = .returned (.ok (cat, ext, ver))) {t : Store}
    (htr : t.readOnly = s.readOnly) (hta : t.tables .app = s.tables .app) {P : Shared → Prop}
    (hP : ∀ st st', P st → Changes (!me) st st' → P st') (hPw : ∀ st r, P st → P (st.write me .app r))
    (hinv : Inv E order currentVersion s st) (hu : Untouched me .app st) (hp : P st) :
    SafeRun E order currentVersion s me (upgradeApp E cat ext ver) (fun out st' =>
      out = ((upgradeApp E cat ext ver).exec t).1 ∧ Inv E order currentVersion s st' ∧ AppDone E cat ext s me st' ∧
        P st') st := by
  by_cases hdue : ∃ a r, AppWrite E cat ext s a r
  · obtain ⟨a, r, hw⟩ := hdue
    rw [upgradeApp_exec_of_write ((AppWrite.congr htr hta).2 hw)]
    exact safe_upgradeApp_due ht hw hP (fun st => hPw st r) hinv hu hp
  · push_neg at hdue
    refine (safe_quiet (fun c hc => ?_) (P := fun st => AppDone E cat ext s me st ∧ P st)
      (fun _ _ h hc => ⟨h.1.rely hc, hP _ _ h.2 hc⟩) hinv ⟨fun a r hw => absurd hw (hdue a r), hp⟩).mono
      fun _ _ h => ⟨h.1, h.2.1, h.2.2⟩
    rcases mem_run_calls (upgradeApp_calls E cat ext ver) [] t hc with hr | ⟨κ, rfl⟩ | ⟨r, rfl⟩
    · exact hr.quiet htr
    · refine ⟨rfl, fun st₁ hinv₁ => ⟨?_, Shared.step_get κ⟩⟩
      simp only [Store.answer, Table.getE, app_get_of_not_due ht hdue hinv₁, hta]
    · obtain ⟨a, hw⟩ := (upgradeApp_wp E cat ext ver t []).1.write r hc
      exact absurd ((AppWrite.congr htr hta).1 hw) (hdue a r)

end App

/-! ## The migration block -/

section Migration

variable {E : AlertService} {order : MapOrder} {currentVersion : String} {s : Store} {me : Bool}

/-- What run `me` has done once both migration loops returned: every rule and group of both loops migrated. -/
structure LoopsDone (E : AlertService) (order : MapOrder) (s : Store) (me : Bool) (st : Shared) : Prop where
  clusterRules : RulesDone .clusterAlertRule (newClusterRule E.clusterName) me s (listedClusterAlerts E.clusterName s) st
  clusterGroups : GroupsDone .clusterAlertGroup (legacyClusterGroup E.clusterName)
    (listedClusterAlerts E.clusterName s) st
  projectRules : RulesDone .projectAlertRule
    (fun v : ProjectAlert => newProjectRule v.spec.projectName (refParse v.spec.projectName).2 v)
    me s (projectPlan E.clusterName order s.readOnly.projectAlerts) st
  projectGroups : GroupsDone .projectAlertGroup
    (fun v : ProjectAlert => legacyProjectGroup v.spec.projectName (refParse v.spec.projectName).2 v)
    (projectPlan E.clusterName order s.readOnly.projectAlerts) st

/-- What run `me` has done once its `//migrate legacy` block returned: both loops, and `cattle-alerting` deleted. -/
structure MigDone (E : AlertService) (order : MapOrder) (s : Store) (me : Bool) (st : Shared)
    extends LoopsDone E order s me st : Prop where
  namespace_deleted : st.store.namespaces "cattle-alerting" = false

theorem LoopsDone.rely {st st' : Shared} (h : LoopsDone E order s me st) (hc : Changes (!me) st st') :
    LoopsDone E order s me st' :=
  ⟨h.clusterRules.rely hc, h.clusterGroups.rely hc, h.projectRules.rely hc, h.projectGroups.rely hc⟩

theorem LoopsDone.write_app {st : Shared} {r : Kind.app.Obj} (h : LoopsDone E order s me st) :
    LoopsDone E order s me (st.write me .app r) :=
  ⟨h.clusterRules.write_of_ne (by decide), h.clusterGroups.write, h.projectRules.write_of_ne (by decide),
    h.projectGroups.write⟩

theorem MigDone.rely {st st' : Shared} (h : MigDone E order s me st) (hc : Changes (!me) st st') :
    MigDone E order s me st' :=
  ⟨h.toLoopsDone.rely hc, hc.deleted _ h.namespace_deleted⟩

theorem MigDone.write_app {st : Shared} {r : Kind.app.Obj} (h : MigDone E order s me st) :
    MigDone E order s me (st.write me .app r) :=
  ⟨h.toLoopsDone.write_app, h.namespace_deleted⟩

theorem allowed_clusterAlertRule (κ : Key) (x : Option Kind.clusterAlertRule.Obj) :
    Allowed E order currentVersion s .clusterAlertRule κ x ↔ x = (s.tables .clusterAlertRule).get κ ∨
      Migrates E currentVersion s ∧ RuleReach .clusterAlertRule (newClusterRule E.clusterName)
        (listedClusterAlerts E.clusterName s) κ ((s.tables .clusterAlertRule).get κ) x := Iff.rfl

theorem allowed_clusterAlertGroup (κ : Key) (x : Option Kind.clusterAlertGroup.Obj) :
    Allowed E order currentVersion s .clusterAlertGroup κ x ↔ x = (s.tables .clusterAlertGroup).get κ ∨
      Migrates E currentVersion s ∧ GroupReach .clusterAlertGroup (legacyClusterGroup E.clusterName)
        (listedClusterAlerts E.clusterName s) κ ((s.tables .clusterAlertGroup).get κ) x := Iff.rfl

theorem allowed_projectAlertRule (κ : Key) (x : Option Kind.projectAlertRule.Obj) :
    Allowed E order currentVersion s .projectAlertRule κ x ↔ x = (s.tables .projectAlertRule).get κ ∨
      Migrates E currentVersion s ∧ RuleReach .projectAlertRule
        (fun v : ProjectAlert => newProjectRule v.spec.projectName (refParse v.spec.projectName).2 v)
        (projectPlan E.clusterName order s.readOnly.projectAlerts) κ ((s.tables .projectAlertRule).get κ) x := Iff.rfl

theorem allowed_projectAlertGroup (κ : Key) (x : Option Kind.projectAlertGroup.Obj) :
    Allowed E order currentVersion s .projectAlertGroup κ x ↔ x = (s.tables .projectAlertGroup).get κ ∨
      Migrates E currentVersion s ∧ GroupReach .projectAlertGroup
        (fun v : ProjectAlert => legacyProjectGroup v.spec.projectName (refParse v.spec.projectName).2 v)
        (projectPlan E.clusterName order s.readOnly.projectAlerts) κ ((s.tables .projectAlertGroup).get κ) x := Iff.rfl

/-- The cluster migration, however the other run interleaves. -/
theorem safe_migrateLegacyClusterAlert (hm : Migrates E currentVersion s) {P : Shared → Prop}
    (hP : ∀ st st', P st → Changes (!me) st st' → P st')
    (hPr : ∀ st r, P st → P (st.write me .clusterAlertRule r))
    (hPg : ∀ st g, P st → P (st.write me .clusterAlertGroup g))
    {st : Shared} (hinv : Inv E order currentVersion s st)
    (hd : Untouched me .clusterAlertRule st) (hp : P st) :
    SafeRun E order currentVersion s me (migrateLegacyClusterAlert E) (fun out st' => out = .returned none ∧
      Inv E order currentVersion s st' ∧
      RulesDone .clusterAlertRule (newClusterRule E.clusterName) me s (listedClusterAlerts E.clusterName s) st' ∧
      GroupsDone .clusterAlertGroup (legacyClusterGroup E.clusterName) (listedClusterAlerts E.clusterName s) st' ∧
      P st') st := by
  simp only [migrateLegacyClusterAlert, lift_bind]
  refine safe_stay (fun _ => by exact ⟨rfl, rfl⟩) (P := fun st => Untouched me .clusterAlertRule st ∧ P st)
    (fun _ _ h hc => ⟨h.1.rely hc, hP _ _ h.2 hc⟩) hinv ⟨hd, hp⟩ fun st₁ hinv₁ hp₁ => ?_
  simp only [Store.answer, hinv₁.readOnly]
  exact safe_alertLoop (newClusterRule_fresh _) allowed_clusterAlertRule allowed_clusterAlertGroup hm (by decide)
    (fun _ => rfl) (fun _ _ => rfl) (fun _ _ _ => rfl) hP hPr hPg hinv₁ (.nil hp₁.1) hp₁.2

/-- The project migration, however the other run interleaves. -/
theorem safe_migrateLegacyProjectAlert (hm : Migrates E currentVersion s) {P : Shared → Prop}
    (hP : ∀ st st', P st → Changes (!me) st st' → P st')
    (hPr : ∀ st r, P st → P (st.write me .projectAlertRule r))
    (hPg : ∀ st g, P st → P (st.write me .projectAlertGroup g))
    {st : Shared} (hinv : Inv E order currentVersion s st)
    (hd : Untouched me .projectAlertRule st) (hp : P st) :
    SafeRun E order currentVersion s me (migrateLegacyProjectAlert E order) (fun out st' => out = .returned none ∧
      Inv E order currentVersion s st' ∧
      RulesDone .projectAlertRule
        (fun v : ProjectAlert => newProjectRule v.spec.projectName (refParse v.spec.projectName).2 v)
        me s (projectPlan E.clusterName order s.readOnly.projectAlerts) st' ∧
      GroupsDone .projectAlertGroup
        (fun v : ProjectAlert => legacyProjectGroup v.spec.projectName (refParse v.spec.projectName).2 v)
        (projectPlan E.clusterName order s.readOnly.projectAlerts) st' ∧
      P st') st := by
  simp only [migrateLegacyProjectAlert, lift_bind]
  refine safe_stay (fun _ => by exact ⟨rfl, rfl⟩) (P := fun st => Untouched me .projectAlertRule st ∧ P st)
    (fun _ _ h hc => ⟨h.1.rely hc, hP _ _ h.2 hc⟩) hinv ⟨hd, hp⟩ fun st₁ hinv₁ hp₁ => ?_
  simp only [Store.answer, hinv₁.readOnly]
  show SafeRun _ _ _ _ _ (forEach migrateProjectBucket _) _ _
  rw [forEach_buckets]
  exact safe_alertLoop newProjectRule_fresh allowed_projectAlertRule allowed_projectAlertGroup hm (by decide)
    (fun _ => rfl) (fun _ _ => rfl) (fun _ _ _ => rfl) hP hPr hPg hinv₁ (.nil hp₁.1) hp₁.2

/-- Removing the legacy namespace, however the other run interleaves: afterwards it is gone. -/
theorem safe_removeLegacyAlerting (hm : Migrates E currentVersion s) {P : Shared → Prop}
    (hP : ∀ st st', P st → Changes (!me) st st' → P st')
    (hPd : ∀ st, P st → P ⟨st.store.deleteNamespace "cattle-alerting", st.writer⟩) {st : Shared}
    (hinv : Inv E order currentVersion s st) (hp : P st) :
    SafeRun E order currentVersion s me removeLegacyAlerting (fun out st' => out = .returned none ∧
      Inv E order currentVersion s st' ∧ st'.store.namespaces "cattle-alerting" = false ∧ P st') st := by
  simp only [removeLegacyAlerting, lift_bind]
  refine safe_call.2 fun st₁ h₁ => ?_
  obtain ⟨hinv₁, hc₁⟩ := h₁ hinv
  have hstep : st₁.step me (.namespaceDelete "cattle-alerting") =
      ⟨st₁.store.deleteNamespace "cattle-alerting", st₁.writer⟩ := by
    simp [Shared.step, Store.answer_namespaceDelete_store, Call.writes]
  rw [hstep]
  refine ⟨guar_deleteNamespace hm, ?_⟩
  have hpost : ∀ st₂,
      Guar E order currentVersion s (!me) ⟨st₁.store.deleteNamespace "cattle-alerting", st₁.writer⟩ st₂ →
      Inv E order currentVersion s st₂ ∧ st₂.store.namespaces "cattle-alerting" = false ∧ P st₂ :=
    fun st₂ h₂ => by
    obtain ⟨hinv₂, hc₂⟩ := h₂ (@guar_deleteNamespace E order currentVersion s me st₁ hm hinv₁).1
    exact ⟨hinv₂, hc₂.deleted _ (by simp [Store.deleteNamespace_namespaces]),
      hP _ _ (hPd _ (hP _ _ hp hc₁)) hc₂⟩
  cases hn : st₁.store.namespaces "cattle-alerting"
  · simp only [Store.answer, hn, Bool.false_eq_true, ite_false, ApiError.notFound_isNotFound, Bool.not_true]
    exact fun st₂ h₂ => ⟨rfl, hpost st₂ h₂⟩
  · simp only [Store.answer, hn, ite_true]
    exact fun st₂ h₂ => ⟨rfl, hpost st₂ h₂⟩

/-- The `//migrate legacy` block, however the other run interleaves: it returns `nil`, having migrated everything
when the runs migrate, and has written no app. -/
theorem safe_migrateLegacy (htgt : ∃ t, ((upgradeTarget E).exec s).1 = .returned (.ok t)) {st : Shared}
    (hinv : Inv E order currentVersion s st) (hu : ∀ k, Untouched me k st) :
    SafeRun E order currentVersion s me (migrateLegacy E order currentVersion) (fun out st' => out = .returned none ∧
      Inv E order currentVersion s st' ∧ (Migrates E currentVersion s → MigDone E order s me st') ∧
      Untouched me .app st') st := by
  unfold migrateLegacy
  split
  · next h =>
    have hm : Migrates E currentVersion s := ⟨htgt, by simpa using h⟩
    refine Safe.bind (fun a => guar_refl (!me) a) ((safe_migrateLegacyClusterAlert hm
      (P := fun st => Untouched me .projectAlertRule st ∧ Untouched me .app st)
      (fun _ _ h hc => ⟨h.1.rely hc, h.2.rely hc⟩)
      (fun _ _ h => ⟨h.1.write_of_ne (by decide), h.2.write_of_ne (by decide)⟩)
      (fun _ _ h => ⟨h.1.write_of_ne (by decide), h.2.write_of_ne (by decide)⟩) hinv (hu _) ⟨hu _, hu _⟩).mono ?_)
    rintro o st₁ ⟨rfl, hinv₁, hcr, hcg, hpu, hua⟩
    refine Safe.bind (fun a => guar_refl (!me) a) ((safe_migrateLegacyProjectAlert hm
      (P := fun st => RulesDone .clusterAlertRule (newClusterRule E.clusterName) me s
          (listedClusterAlerts E.clusterName s) st ∧
        GroupsDone .clusterAlertGroup (legacyClusterGroup E.clusterName) (listedClusterAlerts E.clusterName s) st ∧
        Untouched me .app st)
      (fun _ _ h hc => ⟨h.1.rely hc, h.2.1.rely hc, h.2.2.rely hc⟩)
      (fun _ _ h => ⟨h.1.write_of_ne (by decide), h.2.1.write, h.2.2.write_of_ne (by decide)⟩)
      (fun _ _ h => ⟨h.1.write_of_ne (by decide), h.2.1.write, h.2.2.write_of_ne (by decide)⟩) hinv₁ hpu
      ⟨hcr, hcg, hua⟩).mono ?_)
    rintro o st₂ ⟨rfl, hinv₂, hpr₂, hpg₂, hcr₂, hcg₂, hua₂⟩
    exact (safe_removeLegacyAlerting hm (P := fun st => LoopsDone E order s me st ∧ Untouched me .app st)
      (fun _ _ h hc => ⟨h.1.rely hc, h.2.rely hc⟩) (fun _ h => ⟨⟨h.1.1, h.1.2, h.1.3, h.1.4⟩, h.2⟩) hinv₂
      ⟨⟨hcr₂, hcg₂, hpr₂, hpg₂⟩, hua₂⟩).mono fun o st₃ ⟨ho, hinv₃, hns, hl, hua₃⟩ =>
        ⟨ho, hinv₃, fun _ => ⟨hl, hns⟩, hua₃⟩
  · next h =>
    exact fun st' h' => ⟨rfl, (h' hinv).1, fun hm => absurd hm.2 (by simpa using h), (hu .app).rely (h' hinv).2⟩

end Migration

end AlertUpgrade
