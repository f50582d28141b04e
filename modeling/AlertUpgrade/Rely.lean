import AlertUpgrade.Interleave
import AlertUpgrade.Run

/-!
# What each of two concurrent upgrades relies on

Two runs of `Upgrade` from the store `s` share the store. Each writes only values the other could write too: at a
rule's key the old rule, or the translation of a legacy alert with that key upserted over it (`RuleReach`); at a
group's key the old group, or the group of the first legacy alert with that key (`GroupReach`); at the app's key the
old app, or the one `AppWrite` allows; and it may delete `cattle-alerting`. `Inv` says that every record holds such a
value and that a record no run wrote holds its old one; `Changes t` says that every record that changed was written
by run `t`, that none was deleted, and that no namespace was created. Each run keeps `Guar` at its own calls and
relies on the other keeping it.

What a run knows of its own progress stays true whatever the other writes: the keys of the alerts it has migrated
are taken, and where it wrote a rule last, the rule is what its own loop left there (`RulesDone`, `GroupsDone`).
-/

namespace AlertUpgrade

open Prog

/-! ## Writes -/

namespace Shared

variable {me : Bool} {st : Shared} {k k' : Kind} {r : k.Obj}

/-- Run `me` writes `r` at its key. -/
def write (me : Bool) (st : Shared) (k : Kind) (r : k.Obj) : Shared where
  store := st.store.setTable k ((st.store.tables k).insert r)
  writer k' κ := if (k, k.key r) = (k', κ) then some me else st.writer k' κ

@[simp] theorem write_readOnly : (st.write me k r).store.readOnly = st.store.readOnly := rfl

@[simp] theorem write_namespaces : (st.write me k r).store.namespaces = st.store.namespaces := rfl

theorem write_get_self (κ : Key) :
    ((st.write me k r).store.tables k).get κ = if κ = k.key r then some r else (st.store.tables k).get κ := by
  simp [write]

theorem write_tables_of_ne (h : k' ≠ k) : (st.write me k r).store.tables k' = st.store.tables k' := by
  simp [write, h]

/-- A write leaves every other record, and its tag, as they were. -/
theorem write_get_of_key_ne {κ : Key} (h : (k, k.key r) ≠ (k', κ)) :
    ((st.write me k r).store.tables k').get κ = (st.store.tables k').get κ := by
  by_cases hk : k' = k
  · subst hk
    rw [write_get_self, if_neg fun hκ => h (by rw [hκ])]
  · rw [write_tables_of_ne hk]

theorem write_writer_of_key_ne {κ : Key} (h : (k, k.key r) ≠ (k', κ)) :
    (st.write me k r).writer k' κ = st.writer k' κ := if_neg h

theorem write_writer_of_ne (h : k' ≠ k) : (st.write me k r).writer k' = st.writer k' := by
  funext κ
  simp [write, Ne.symm h]

theorem write_writer_self (κ : Key) :
    (st.write me k r).writer k κ = if κ = k.key r then some me else st.writer k κ := by
  simp only [write, Prod.mk.injEq, true_and]
  split <;> split <;> simp_all

theorem step_read {c : Call} (hs : (st.store.answer c).2 = st.store) (hw : c.writes st.store = none) :
    st.step me c = st := by
  simp [step, hs, hw]

theorem step_get (κ : Key) : st.step me (.get k κ) = st := step_read rfl rfl

theorem step_create_of_none (h : (st.store.tables k).get (k.key r) = none) :
    st.step me (.create k r) = st.write me k r := by
  simp [step, write, Store.answer, Call.writes, h, Store.setTable]

theorem step_create_of_isSome (h : ((st.store.tables k).get (k.key r)).isSome) : st.step me (.create k r) = st := by
  obtain ⟨o, ho⟩ := Option.isSome_iff_exists.1 h
  simp [step, Store.answer, Call.writes, ho]

theorem step_update_of_isSome (h : ((st.store.tables k).get (k.key r)).isSome) :
    st.step me (.update k r) = st.write me k r := by
  obtain ⟨o, ho⟩ := Option.isSome_iff_exists.1 h
  simp [step, write, Store.answer, Call.writes, ho, Store.setTable]

end Shared

theorem answer_create_of_none {σ : Store} {k : Kind} {r : k.Obj} (h : (σ.tables k).get (k.key r) = none) :
    (σ.answer (.create k r)).1 = .ok r := by
  simp [Store.answer, h]

theorem answer_create_of_isSome {σ : Store} {k : Kind} {r : k.Obj} (h : ((σ.tables k).get (k.key r)).isSome) :
    (σ.answer (.create k r)).1 = .error (.alreadyExists k.resource (k.key r).2) := by
  obtain ⟨o, ho⟩ := Option.isSome_iff_exists.1 h
  simp [Store.answer, ho]

theorem answer_update_of_isSome {σ : Store} {k : Kind} {r : k.Obj} (h : ((σ.tables k).get (k.key r)).isSome) :
    (σ.answer (.update k r)).1 = .ok r := by
  obtain ⟨o, ho⟩ := Option.isSome_iff_exists.1 h
  simp [Store.answer, ho]

/-! ## The invariant and the guarantee -/

section Rely

variable (E : AlertService) (order : MapOrder) (currentVersion : String) (s : Store)

/-- Both runs migrate: the target resolves and the current version does not run the new alerting yet. -/
def Migrates : Prop :=
  (∃ t, ((upgradeTarget E).exec s).1 = .returned (.ok t)) ∧ stringsContains currentVersion monitoringMarker = false

/-- The values a record may hold while runs of `Upgrade` from `s` go on. -/
def Allowed : (k : Kind) → Key → Option k.Obj → Prop
  | .clusterAlertRule, κ, x => x = (s.tables .clusterAlertRule).get κ ∨ Migrates E currentVersion s ∧
      RuleReach .clusterAlertRule (newClusterRule E.clusterName) (listedClusterAlerts E.clusterName s) κ
        ((s.tables .clusterAlertRule).get κ) x
  | .clusterAlertGroup, κ, x => x = (s.tables .clusterAlertGroup).get κ ∨ Migrates E currentVersion s ∧
      GroupReach .clusterAlertGroup (legacyClusterGroup E.clusterName) (listedClusterAlerts E.clusterName s) κ
        ((s.tables .clusterAlertGroup).get κ) x
  | .projectAlertRule, κ, x => x = (s.tables .projectAlertRule).get κ ∨ Migrates E currentVersion s ∧
      RuleReach .projectAlertRule (fun v => newProjectRule v.spec.projectName (refParse v.spec.projectName).2 v)
        (projectPlan E.clusterName order s.readOnly.projectAlerts) κ ((s.tables .projectAlertRule).get κ) x
  | .projectAlertGroup, κ, x => x = (s.tables .projectAlertGroup).get κ ∨ Migrates E currentVersion s ∧
      GroupReach .projectAlertGroup (fun v => legacyProjectGroup v.spec.projectName (refParse v.spec.projectName).2 v)
        (projectPlan E.clusterName order s.readOnly.projectAlerts) κ ((s.tables .projectAlertGroup).get κ) x
  | .app, κ, x => x = (s.tables .app).get κ ∨ ∃ cat ext ver a r,
      ((upgradeTarget E).exec s).1 = .returned (.ok (cat, ext, ver)) ∧ AppWrite E cat ext s a r ∧
        κ = Kind.key .app r ∧ x = some r

/-- The shared state two runs of `Upgrade` from `s` can be in. -/
structure Inv (st : Shared) : Prop where
  readOnly : st.store.readOnly = s.readOnly
  namespaces : st.store.namespaces = s.namespaces ∨
    Migrates E currentVersion s ∧ st.store.namespaces = (s.deleteNamespace "cattle-alerting").namespaces
  allowed : ∀ k κ, Allowed E order currentVersion s k κ ((st.store.tables k).get κ)
  unwritten : ∀ k κ, st.writer k κ = none → (st.store.tables k).get κ = (s.tables k).get κ

/-- What run `t` may have done between `st` and `st'`: every record that changed it wrote last, no record was
deleted, no namespace created. -/
structure Changes (t : Bool) (st st' : Shared) : Prop where
  tagged : ∀ k κ,
    ((st'.store.tables k).get κ ≠ (st.store.tables k).get κ ∨ st'.writer k κ ≠ st.writer k κ) → st'.writer k κ = some t
  kept : ∀ k κ, ((st.store.tables k).get κ).isSome → ((st'.store.tables k).get κ).isSome
  deleted : ∀ n, st.store.namespaces n = false → st'.store.namespaces n = false

/-- What run `t` guarantees of each of its calls, and relies on the other run's calls keeping. -/
def Guar (t : Bool) (st st' : Shared) : Prop :=
  Inv E order currentVersion s st → Inv E order currentVersion s st' ∧ Changes t st st'

/-- Side `me` of two concurrent runs of `Upgrade` from `s`: it relies on the other side's guarantee. -/
abbrev SafeRun {α : Type} (me : Bool) (p : Prog α) (Q : Outcome α → Shared → Prop) (st : Shared) : Prop :=
  Safe (Guar E order currentVersion s (!me)) (Guar E order currentVersion s me) me p Q st

end Rely

namespace Changes

variable {t : Bool} {st st' st'' : Shared}

theorem refl (t : Bool) (st : Shared) : Changes t st st :=
  ⟨fun _ _ h => by simp at h, fun _ _ h => h, fun _ h => h⟩

theorem trans (h : Changes t st st') (h' : Changes t st' st'') : Changes t st st'' where
  tagged k κ hc := by
    by_cases hc' : (st''.store.tables k).get κ ≠ (st'.store.tables k).get κ ∨ st''.writer k κ ≠ st'.writer k κ
    · exact h'.tagged k κ hc'
    · simp only [ne_eq, not_or, not_not] at hc'
      rw [hc'.1] at hc
      rw [hc'.2] at hc ⊢
      exact h.tagged k κ hc
  kept k κ hs := h'.kept k κ (h.kept k κ hs)
  deleted n hn := h'.deleted n (h.deleted n hn)

/-- A record whose tag is not `t` is as it was. -/
theorem eq_of_ne (h : Changes t st st') {k : Kind} {κ : Key} (hw : st'.writer k κ ≠ some t) :
    (st'.store.tables k).get κ = (st.store.tables k).get κ ∧ st'.writer k κ = st.writer k κ := by
  by_contra hc
  exact hw (h.tagged k κ (by rwa [← not_and_or]))

end Changes

section Guar

variable {E : AlertService} {order : MapOrder} {currentVersion : String} {s : Store} {me : Bool} {st : Shared}

theorem guar_refl (t : Bool) (st : Shared) : Guar E order currentVersion s t st st := fun h => ⟨h, Changes.refl t st⟩

theorem guar_trans {t : Bool} {st₁ st₂ st₃ : Shared} (h₁ : Guar E order currentVersion s t st₁ st₂)
    (h₂ : Guar E order currentVersion s t st₂ st₃) : Guar E order currentVersion s t st₁ st₃ := fun h =>
  ⟨(h₂ (h₁ h).1).1, (h₁ h).2.trans (h₂ (h₁ h).1).2⟩

/-- A run's own write of an allowed value keeps the invariant. -/
theorem guar_write {k : Kind} {r : k.Obj} (hA : Allowed E order currentVersion s k (k.key r) (some r)) :
    Guar E order currentVersion s me st (st.write me k r) := fun h => by
  refine ⟨⟨h.readOnly, h.namespaces, fun k' κ => ?_, fun k' κ hw => ?_⟩,
    ⟨fun k' κ hc => ?_, fun k' κ hs => ?_, fun _ hn => hn⟩⟩ <;> by_cases he : (k, k.key r) = (k', κ)
  all_goals first
    | obtain ⟨rfl, rfl⟩ := Prod.mk.inj he
    | simp only [Shared.write_writer_of_key_ne he, Shared.write_get_of_key_ne he] at *
  · rw [Shared.write_get_self, if_pos rfl]
    exact hA
  · exact h.allowed k' κ
  · simp [Shared.write] at hw
  · exact h.unwritten k' κ hw
  · simp [Shared.write]
  · simp at hc
  · rw [Shared.write_get_self, if_pos rfl]
    rfl
  · exact hs

/-- Deleting `cattle-alerting` in a migrating run keeps the invariant. -/
theorem guar_deleteNamespace (hm : Migrates E currentVersion s) :
    Guar E order currentVersion s me st ⟨st.store.deleteNamespace "cattle-alerting", st.writer⟩ := fun h => by
  refine ⟨⟨h.readOnly, .inr ⟨hm, ?_⟩, h.allowed, h.unwritten⟩,
    ⟨fun _ _ hc => ?_, fun _ _ hs => hs, fun n hn => ?_⟩⟩
  · funext n
    rcases h.namespaces with hn | ⟨-, hn⟩ <;> simp [Store.deleteNamespace_namespaces, hn]
  · simp at hc
  · simp [Store.deleteNamespace_namespaces, hn]

/-- A call that changes nothing: the continuation runs from the state the other run left. -/
theorem safe_stay {α : Type} {c : Call} (hc : ∀ σ : Store, (σ.answer c).2 = σ ∧ c.writes σ = none)
    {k : Except ApiError c.Ret → Prog α} {Q : Outcome α → Shared → Prop} {P : Shared → Prop}
    (hP : ∀ st st', P st → Changes (!me) st st' → P st') {st : Shared} (hinv : Inv E order currentVersion s st)
    (hp : P st) (h : ∀ st₁, Inv E order currentVersion s st₁ → P st₁ →
      SafeRun E order currentVersion s me (k (st₁.store.answer c).1) Q st₁) :
    SafeRun E order currentVersion s me (.call c k) Q st :=
  safe_call.2 fun st₁ h₁ => by
    rw [Shared.step_read (hc _).1 (hc _).2]
    exact ⟨guar_refl me st₁, h st₁ (h₁ hinv).1 (hP _ _ hp (h₁ hinv).2)⟩

end Guar

/-! ## A run's own progress -/

section Progress

variable {β : Type} (kr : Kind) (rule : β → kr.Obj) (me : Bool) (s : Store)

/-- Run `me` has migrated the rules of `ys`: their keys are taken and tagged, and where `me` wrote last the rule is
what its loop left there; it wrote no rule of this kind at another key. -/
def RulesDone (ys : List β) (st : Shared) : Prop :=
  ∀ κ, (ys.filter (fun x => kr.key (rule x) = κ) = [] → st.writer kr κ ≠ some me) ∧
    (ys.filter (fun x => kr.key (rule x) = κ) ≠ [] →
      ((st.store.tables kr).get κ).isSome ∧ st.writer kr κ ≠ none ∧ (st.writer kr κ = some me →
        (st.store.tables kr).get κ = lastRule kr rule (ys.filter (fun x => kr.key (rule x) = κ)) ((s.tables kr).get κ)))

/-- The groups of `ys` exist. -/
def GroupsDone (kg : Kind) (group : β → kg.Obj) (ys : List β) (st : Shared) : Prop :=
  ∀ w ∈ ys, ((st.store.tables kg).get (kg.key (group w))).isSome

/-- Run `me` wrote no record of kind `k`. -/
def Untouched (k : Kind) (st : Shared) : Prop := ∀ κ, st.writer k κ ≠ some me

variable {kr rule me s} {kg : Kind} {group : β → kg.Obj} {ys : List β} {st st' : Shared}

theorem ne_some_not (me : Bool) : some me ≠ (some (!me) : Option Bool) := by
  cases me <;> decide

theorem RulesDone.nil (h : Untouched me kr st) : RulesDone kr rule me s [] st :=
  fun κ => ⟨fun _ => h κ, fun h' => absurd rfl h'⟩

theorem RulesDone.rely (h : RulesDone kr rule me s ys st) (hc : Changes (!me) st st') :
    RulesDone kr rule me s ys st' := fun κ => by
  have hkeep : st'.writer kr κ ≠ some (!me) →
      (st'.store.tables kr).get κ = (st.store.tables kr).get κ ∧ st'.writer kr κ = st.writer kr κ := hc.eq_of_ne
  refine ⟨fun he hw => ?_, fun he => ⟨hc.kept kr κ ((h κ).2 he).1, fun hw => ?_, fun hw => ?_⟩⟩
  · rw [(hkeep (hw ▸ ne_some_not me)).2] at hw
    exact (h κ).1 he hw
  · by_cases ho : st'.writer kr κ = some (!me)
    · rw [ho] at hw; cases hw
    · rw [(hkeep ho).2] at hw
      exact ((h κ).2 he).2.1 hw
  · rw [(hkeep (hw ▸ ne_some_not me)).1]
    exact ((h κ).2 he).2.2 ((hkeep (hw ▸ ne_some_not me)).2 ▸ hw)

theorem GroupsDone.rely {t : Bool} (h : GroupsDone kg group ys st) (hc : Changes t st st') :
    GroupsDone kg group ys st' := fun w hw => hc.kept _ _ (h w hw)

theorem Untouched.rely {k : Kind} (h : Untouched me k st) (hc : Changes (!me) st st') : Untouched me k st' :=
  fun κ hw => by
    rw [(hc.eq_of_ne (hw ▸ ne_some_not me)).2] at hw
    exact h κ hw

theorem RulesDone.write_of_ne {k : Kind} {r : k.Obj} (hk : kr ≠ k) (h : RulesDone kr rule me s ys st) :
    RulesDone kr rule me s ys (st.write me k r) := by
  unfold RulesDone
  rw [Shared.write_tables_of_ne hk, Shared.write_writer_of_ne hk]
  exact h

theorem GroupsDone.write {t : Bool} {k : Kind} {r : k.Obj} (h : GroupsDone kg group ys st) :
    GroupsDone kg group ys (st.write t k r) := fun w hw => by
  by_cases hk : kg = k
  · subst hk
    rw [Shared.write_get_self]
    split
    · rfl
    · exact h w hw
  · rw [Shared.write_tables_of_ne hk]
    exact h w hw

theorem Untouched.write_of_ne {k k' : Kind} {r : k'.Obj} (hk : k ≠ k') (h : Untouched me k st) :
    Untouched me k (st.write me k' r) := by
  unfold Untouched
  rw [Shared.write_writer_of_ne hk]
  exact h

end Progress

end AlertUpgrade
