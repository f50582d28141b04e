import AlertUpgrade.Orders
import AlertUpgrade.Retry
import AlertUpgrade.Runs

/-!
# Runs of `Upgrade` that fail, lose replies and race

Any number of runs of `Upgrade` from the store `s`, each visiting the project IDs in an order of its own and started
at any time, share the store, and any of their calls may fail before it reaches the store or lose its reply after it
took effect. Every call any of them makes keeps `Reach`: the read-only data untouched, `cattle-alerting` deleted only
by a migrating run, and every record holding a value `Allowed` (the values of the two-run invariant); and every call
is a `Keeps` step: no record disappears, and an app record that has been written keeps its value. The migration
block is sound because a rule is written as the translation of a listed alert upserted over what the record held,
and a group only where its key is empty, which in a run that got there means its alert is the first with that key
(`sound_alertLoop`).
-/

namespace AlertUpgrade

open Prog

/-! ## The stores runs of `Upgrade` reach -/

section Reach

variable (E : AlertService) (currentVersion : String) (s : Store)

/-- The stores that runs of `Upgrade` from `s` leave, however they interleave and whichever of their calls fail. -/
structure Reach (σ : Store) : Prop where
  readOnly : σ.readOnly = s.readOnly
  namespaces : σ.namespaces = s.namespaces ∨
    Migrates E currentVersion s ∧ σ.namespaces = (s.deleteNamespace "cattle-alerting").namespaces
  allowed : ∀ k κ, Allowed E .listing currentVersion s k κ ((σ.tables k).get κ)

/-- What each call of a run of `Upgrade` does to the store: no record disappears, and an app record that no longer
holds its value in `s` keeps the value it has. -/
structure Keeps (σ σ' : Store) : Prop where
  kept : ∀ k κ, ((σ.tables k).get κ).isSome → ((σ'.tables k).get κ).isSome
  app : ∀ κ, (σ.tables .app).get κ ≠ (s.tables .app).get κ →
    (σ'.tables .app).get κ = (σ.tables .app).get κ

variable {E currentVersion s} {σ : Store} {order : MapOrder}

theorem Keeps.refl (σ : Store) : Keeps s σ σ := ⟨fun _ _ h => h, fun _ _ => rfl⟩

theorem Keeps.trans {σ₁ σ₂ σ₃ : Store} (h₁ : Keeps s σ₁ σ₂) (h₂ : Keeps s σ₂ σ₃) : Keeps s σ₁ σ₃ :=
  ⟨fun k κ h => h₂.kept k κ (h₁.kept k κ h),
    fun κ hκ => (h₂.app κ (h₁.app κ hκ ▸ hκ)).trans (h₁.app κ hκ)⟩

theorem reach_start : Reach E currentVersion s s := ⟨rfl, .inl rfl, fun k _ => by cases k <;> exact .inl rfl⟩

/-- The two-run invariant, without its tags, is `Reach`. -/
theorem Reach.of_inv {st : Shared} (h : Inv E order currentVersion s st) : Reach E currentVersion s st.store :=
  ⟨h.readOnly, h.namespaces, by rw [allowed_order E .listing order]; exact h.allowed⟩

/-- A store in `Reach` is a state of the two-run invariant in which every record may have been written. -/
theorem Reach.inv (h : Reach E currentVersion s σ) (order : MapOrder) (me : Bool) :
    Inv E order currentVersion s ⟨σ, fun _ _ => some me⟩ :=
  ⟨h.readOnly, h.namespaces, by rw [allowed_order E order .listing]; exact h.allowed,
    fun _ _ h => Option.noConfusion h⟩

/-- Writing an allowed rule or group keeps `Reach`, and is a `Keeps` step. -/
theorem Reach.write {k : Kind} {r : k.Obj} (h : Reach E currentVersion s σ) (hk : k ≠ .app)
    (hA : Allowed E order currentVersion s k (k.key r) (some r)) :
    Keeps s σ (σ.setTable k ((σ.tables k).insert r)) ∧
      Reach E currentVersion s (σ.setTable k ((σ.tables k).insert r)) := by
  obtain ⟨hinv, hc⟩ := (guar_write hA : Guar E order currentVersion s true _ _) (h.inv order true)
  exact ⟨⟨hc.kept, fun κ _ => by rw [Store.setTable_tables_of_ne _ _ (Ne.symm hk)]⟩, Reach.of_inv hinv⟩

theorem Reach.create {k : Kind} {r : k.Obj} (h : Reach E currentVersion s σ) (hk : k ≠ .app)
    (hA : (σ.tables k).get (k.key r) = none → Allowed E order currentVersion s k (k.key r) (some r)) :
    Keeps s σ (σ.answer (.create k r)).2 ∧ Reach E currentVersion s (σ.answer (.create k r)).2 := by
  cases hx : (σ.tables k).get (k.key r) with
  | none => simpa only [Store.answer, hx] using h.write hk (hA hx)
  | some _ => simpa only [Store.answer, hx] using ⟨Keeps.refl σ, h⟩

theorem Reach.update {k : Kind} {r : k.Obj} (h : Reach E currentVersion s σ) (hk : k ≠ .app)
    (hA : ((σ.tables k).get (k.key r)).isSome → Allowed E order currentVersion s k (k.key r) (some r)) :
    Keeps s σ (σ.answer (.update k r)).2 ∧ Reach E currentVersion s (σ.answer (.update k r)).2 := by
  cases hx : (σ.tables k).get (k.key r) with
  | none => simpa only [Store.answer, hx] using ⟨Keeps.refl σ, h⟩
  | some _ => simpa only [Store.answer, hx] using h.write hk (hA (by rw [hx]; rfl))

/-- The app update of an `AppWrite` keeps `Reach`, and is a `Keeps` step: an app record that was written already
holds the app it writes. -/
theorem Reach.updateApp {cat ext ver : String} {a r : App} (h : Reach E currentVersion s σ)
    (ht : ((upgradeTarget E).exec s).1 = .returned (.ok (cat, ext, ver))) (hw : AppWrite E cat ext s a r) :
    Keeps s σ (σ.answer (.update .app r)).2 ∧ Reach E currentVersion s (σ.answer (.update .app r)).2 := by
  have hA : Allowed E .listing currentVersion s .app (Kind.key .app r) (some r) :=
    .inr ⟨cat, ext, ver, a, r, ht, hw, rfl, rfl⟩
  cases hx : (σ.tables .app).get (Kind.key .app r) with
  | none => simpa only [Store.answer, hx] using ⟨Keeps.refl σ, h⟩
  | some _ =>
    simp only [Store.answer, hx]
    obtain ⟨hinv, hc⟩ := (guar_write hA : Guar E .listing currentVersion s true _ _) (h.inv .listing true)
    refine ⟨⟨hc.kept, fun κ hne => ?_⟩, Reach.of_inv hinv⟩
    rw [Store.setTable_tables_self, Table.insert_get]
    split
    · next hκ =>
      subst hκ
      rcases allowed_app ht (h.allowed .app (Kind.key .app r)) with h' | ⟨a', r', hw', -, h'⟩
      · exact absurd h' hne
      · rw [h', (hw.unique hw').2]
    · rfl

/-- Deleting `cattle-alerting` in a migrating run keeps `Reach`, and is a `Keeps` step. -/
theorem Reach.deleteNamespace (h : Reach E currentVersion s σ) (hm : Migrates E currentVersion s) :
    Keeps s σ (σ.answer (.namespaceDelete "cattle-alerting")).2 ∧
      Reach E currentVersion s (σ.answer (.namespaceDelete "cattle-alerting")).2 := by
  rw [Store.answer_namespaceDelete_store]
  exact ⟨⟨fun _ _ h => h, fun _ _ => rfl⟩,
    Reach.of_inv ((guar_deleteNamespace hm : Guar E .listing currentVersion s true _ _) (h.inv .listing true)).1⟩

end Reach

/-! ## The reading calls -/

section Reads

variable {E : AlertService} {currentVersion : String} {s : Store} {α : Type}

/-- A program that only reads is sound with a postcondition every run of it from `s`, whatever fails, ends in. -/
theorem sound_of_wp {p : Prog α} (hp : AllCalls Call.IsRead p) {Q : Outcome α → Store → Prop}
    (h : wp p (fun out _ _ => ∀ σ, Q out σ) s) (σ : Store) :
    Sound (Reach E currentVersion s) (Keeps s) Q p σ := by
  induction p generalizing σ s with
  | pure a => exact h [] σ
  | panic m => exact h [] σ
  | call c k ih =>
    obtain ⟨hf, ha⟩ := (wp_call_iff c k).1 h
    refine sound_read Keeps.refl (fun σ => (hp.1.answer σ).1) fun σ' _ h' =>
      ⟨?_, fun m => ih _ (hp.2 _) (hf m) σ'⟩
    rw [hp.1.answer_congr h'.readOnly]
    exact ih _ (hp.2 _) (by rwa [(hp.1.answer s).1] at ha) σ'

/-- A run of the first block that returns a target returns the one the clean run from `s` returns. -/
theorem sound_upgradeTarget (E : AlertService) (σ : Store) :
    Sound (Reach E currentVersion s) (Keeps s)
      (fun o _ => ∀ t, o = .returned (.ok t) → ((upgradeTarget E).exec s).1 = .returned (.ok t))
      (upgradeTarget E) σ :=
  sound_of_wp (upgradeTarget_reads E) (wp_mono (upgradeTarget_wp E s) fun out _ _ ⟨_, _, h⟩ _ t ht => by
    rcases h with h | ⟨e, he⟩
    · rw [← h, ht]
    · rw [ht] at he
      cases he) σ

end Reads

/-! ## The migration block -/

section Loops

variable {E : AlertService} {order : MapOrder} {currentVersion : String} {s : Store}
variable {β : Type} {kr kg : Kind} {rule : β → kr.Obj} {group : β → kg.Obj} {xs pre : List β} {v : β}

/-- The groups of the alerts `pre` exist. -/
def Taken (kg : Kind) (group : β → kg.Obj) (pre : List β) (σ : Store) : Prop :=
  ∀ w ∈ pre, ((σ.tables kg).get (kg.key (group w))).isSome

theorem Taken.keeps {σ σ' : Store} (h : Taken kg group pre σ) (hk : Keeps s σ σ') : Taken kg group pre σ' :=
  fun w hw => hk.kept _ _ (h w hw)

theorem Taken.snoc {σ : Store} (h : Taken kg group pre σ) (hv : ((σ.tables kg).get (kg.key (group v))).isSome) :
    Taken kg group (pre ++ [v]) σ :=
  fun w hw => (List.mem_append.1 hw).elim (h w) fun hw => List.mem_singleton.1 hw ▸ hv

variable (hfresh : ∀ x, kr.Fresh (rule x))
  (hkr : ∀ κ x, Allowed E order currentVersion s kr κ x ↔
    x = (s.tables kr).get κ ∨ Migrates E currentVersion s ∧ RuleReach kr rule xs κ ((s.tables kr).get κ) x)
  (hkg : ∀ κ x, Allowed E order currentVersion s kg κ x ↔
    x = (s.tables kg).get κ ∨ Migrates E currentVersion s ∧ GroupReach kg group xs κ ((s.tables kg).get κ) x)
  (hm : Migrates E currentVersion s) (hra : kr ≠ .app) (hga : kg ≠ .app)

include hfresh hkr hm hra in
/-- The rule step of an iteration, whatever the other runs do and however its calls are met. -/
theorem sound_migrateRule (hv : v ∈ xs) (m : ObjectMeta) (σ : Store) :
    Sound (Reach E currentVersion s) (Keeps s) (fun _ _ => True) (migrateRule kr (rule v) m) σ := by
  simp only [migrateRule, lift_bind]
  refine sound_read Keeps.refl (fun _ => rfl) fun σ₁ _ h₁ => ⟨?_, fun _ => trivial⟩
  have hreach := ruleReach_of_inv hkr (h₁.inv order true) (kr.key (rule v))
  cases hx : (σ₁.tables kr).get (kr.key (rule v)) with
  | none =>
    have horig := RuleReach.eq_of_none (hx ▸ hreach)
    simp only [Store.answer, Table.getE, hx, ApiError.notFound_isNotFound, Bool.not_true, Bool.false_eq_true,
      ite_false, lift_bind]
    intro σ₂ _ h₂
    obtain ⟨hk₂, h₂'⟩ := h₂.create hra fun _ =>
      (hkr _ _).2 (.inr ⟨hm, .inr ⟨v, hv, rfl, by rw [horig, Kind.upsertVal_none]⟩⟩)
    exact ⟨⟨hk₂, h₂', by dsimp only; split <;> (try split) <;> trivial⟩, fun _ => ⟨trivial, trivial⟩⟩
  | some x =>
    have hkx : kr.key x = kr.key (rule v) := (σ₁.tables kr).get_key hx
    have hval := (hx ▸ hreach).withSpec_eq hfresh rfl
    simp only [Store.answer, Table.getE, hx, lift_bind]
    intro σ₂ _ h₂
    obtain ⟨hk₂, h₂'⟩ := h₂.update hra fun _ => by
      rw [Kind.key_withSpec, hkx, hval]
      exact (hkr _ _).2 (.inr ⟨hm, .inr ⟨v, hv, rfl, rfl⟩⟩)
    exact ⟨⟨hk₂, h₂', by dsimp only; split <;> trivial⟩, fun _ => ⟨trivial, trivial⟩⟩

include hkg hm hga in
/-- The group step of an iteration: a run that has made the groups of `pre` and finds the key of `v`'s group empty
creates the group of the first alert with that key, which is allowed; where the create returns, the group of `v`
exists. -/
theorem sound_createGroup {rest : List β} (hxs : xs = pre ++ v :: rest)
    {h : Except ApiError kg.Obj → Prog (Option String)}
    (hok : ∀ g, h (.ok g) = .pure none) (hae : ∀ res n, h (.error (.alreadyExists res n)) = .pure none)
    (hfail : ∀ m σ, Sound (Reach E currentVersion s) (Keeps s) (fun o _ => o ≠ .returned none)
      (h (.error (.unexpected m))) σ)
    {σ : Store} (hd : Taken kg group pre σ) :
    Sound (Reach E currentVersion s) (Keeps s) (fun o σ => o = .returned none → Taken kg group (pre ++ [v]) σ)
      (.call (.create kg (group v)) h) σ := fun σ₂ hr h₂ => by
  have hd₂ : Taken kg group pre σ₂ := hr.keep (fun _ _ hp hk _ => hp.keeps hk) hd
  have hfail' : ∀ m σ, Sound (Reach E currentVersion s) (Keeps s)
      (fun o σ => o = .returned none → Taken kg group (pre ++ [v]) σ) (h (.error (.unexpected m))) σ :=
    fun m σ => (hfail m σ).mono fun _ _ ho he => absurd he ho
  refine ⟨?_, fun m => ⟨hfail' m _, hfail' m _⟩⟩
  cases hy : (σ₂.tables kg).get (kg.key (group v)) with
  | none =>
    have horig := GroupReach.eq_of_none (hy ▸ groupReach_of_inv hkg (h₂.inv order true) (kg.key (group v)))
    have hfirst : (xs.filter fun x => kg.key (group x) = kg.key (group v)).head? = some v := by
      rw [hxs, List.filter_append, List.filter_eq_nil_iff.2 fun w hw hk => ?_]
      · simp
      · have hs := hd₂ w hw
        rw [of_decide_eq_true hk, hy] at hs
        cases hs
    obtain ⟨hk₂, h₂'⟩ := h₂.create (r := group v) hga fun _ =>
      (hkg _ _).2 (.inr ⟨hm, .inr (by simp [firstGroup, horig, hfirst])⟩)
    simp only [Store.answer, hy, hok] at hk₂ h₂' ⊢
    exact ⟨hk₂, h₂', fun _ => (hd₂.keeps hk₂).snoc (by simp)⟩
  | some y =>
    simp only [Store.answer, hy, hae]
    exact ⟨Keeps.refl σ₂, h₂, fun _ => hd₂.snoc (by rw [hy]; rfl)⟩

include hfresh hkr hkg hm hra hga in
/-- A migration loop over the alerts `xs`, whatever the other runs do and however its calls are met. -/
theorem sound_alertLoop {body : β → Prog (Option String)} {m : β → ObjectMeta}
    {h : β → Except ApiError kg.Obj → Prog (Option String)}
    (hbody : ∀ v, body v = (migrateRule kr (rule v) (m v) >>= fun o =>
      match o with
      | some err => Prog.pure (some err)
      | none => Prog.call (.create kg (group v)) (h v)))
    (hok : ∀ v g, h v (.ok g) = .pure none) (hae : ∀ v res n, h v (.error (.alreadyExists res n)) = .pure none)
    (hfail : ∀ v m σ, Sound (Reach E currentVersion s) (Keeps s) (fun o _ => o ≠ .returned none)
      (h v (.error (.unexpected m))) σ) :
    ∀ (pre rest : List β), xs = pre ++ rest → ∀ σ, Taken kg group pre σ →
      Sound (Reach E currentVersion s) (Keeps s) (fun _ _ => True) (forEach body rest) σ
  | _, [], _, _, _ => trivial
  | pre, v :: rest, hxs, σ, hd => by
    rw [forEach, hbody, bind_assoc]
    have hv : v ∈ xs := hxs ▸ List.mem_append_right pre (List.mem_cons_self v rest)
    refine Sound.bind (((sound_migrateRule hfresh hkr hm hra hv (m v) σ).frame (fun _ _ hp hk _ => hp.keeps hk)
      hd).mono fun o σ₁ ho => ?_)
    rcases o with (_ | err) | msg
    · refine Sound.bind ((sound_createGroup hkg hm hga hxs (hok v) (hae v) (hfail v) ho.2).mono
        fun o σ₂ ho₂ => ?_)
      rcases o with (_ | err) | msg
      · exact sound_alertLoop hbody hok hae hfail (pre ++ [v]) rest (by rw [hxs, List.append_assoc]; rfl) σ₂
          (ho₂ rfl)
      · trivial
      · trivial
    · trivial
    · trivial

/-- The cluster migration, in a migrating run. -/
theorem sound_migrateLegacyClusterAlert (hm : Migrates E currentVersion s) (σ : Store) :
    Sound (Reach E currentVersion s) (Keeps s) (fun _ _ => True) (migrateLegacyClusterAlert E) σ := by
  simp only [migrateLegacyClusterAlert, lift_bind]
  refine sound_read Keeps.refl (fun _ => rfl) fun σ₁ _ h₁ => ⟨?_, fun _ => trivial⟩
  simp only [Store.answer, h₁.readOnly]
  exact sound_alertLoop (newClusterRule_fresh _) (@allowed_clusterAlertRule E .listing currentVersion s)
    allowed_clusterAlertGroup hm (by decide) (by decide) (fun _ => rfl) (fun _ _ => rfl) (fun _ _ _ => rfl)
    (by intro _ _ _ h; cases h) [] _ rfl σ₁ fun _ h => absurd h (List.not_mem_nil _)

/-- The project migration, in a migrating run with any map order. -/
theorem sound_migrateLegacyProjectAlert (hm : Migrates E currentVersion s) (σ : Store) :
    Sound (Reach E currentVersion s) (Keeps s) (fun _ _ => True) (migrateLegacyProjectAlert E order) σ := by
  simp only [migrateLegacyProjectAlert, lift_bind]
  refine sound_read Keeps.refl (fun _ => rfl) fun σ₁ _ h₁ => ⟨?_, fun _ => trivial⟩
  simp only [Store.answer, h₁.readOnly]
  show Sound _ _ _ (forEach migrateProjectBucket _) _
  rw [forEach_buckets]
  exact sound_alertLoop newProjectRule_fresh (@allowed_projectAlertRule E order currentVersion s)
    allowed_projectAlertGroup hm (by decide) (by decide) (fun _ => rfl) (fun _ _ => rfl) (fun _ _ _ => rfl)
    (fun _ m _ => by rcases m with ⟨_, _ | _⟩ <;> intro h <;> cases h) [] _ rfl σ₁
    fun _ h => absurd h (List.not_mem_nil _)

theorem sound_removeLegacyAlerting (hm : Migrates E currentVersion s) (σ : Store) :
    Sound (Reach E currentVersion s) (Keeps s) (fun _ _ => True) removeLegacyAlerting σ := by
  simp only [removeLegacyAlerting, lift_bind]
  intro σ₁ _ h₁
  obtain ⟨hk, h'⟩ := h₁.deleteNamespace hm
  exact ⟨⟨hk, h', by dsimp only; split <;> (try split) <;> trivial⟩, fun _ => ⟨trivial, trivial⟩⟩

/-- The `//migrate legacy` block, after the target resolved. -/
theorem sound_migrateLegacy (ht : ∃ t, ((upgradeTarget E).exec s).1 = .returned (.ok t)) (σ : Store) :
    Sound (Reach E currentVersion s) (Keeps s) (fun _ _ => True) (migrateLegacy E order currentVersion) σ := by
  unfold migrateLegacy
  cases hmk : stringsContains currentVersion monitoringMarker
  · have hm : Migrates E currentVersion s := ⟨ht, hmk⟩
    simp only [Bool.not_false, ite_true]
    refine Sound.bind ((sound_migrateLegacyClusterAlert hm σ).mono fun o σ₁ _ => ?_)
    rcases o with (_ | _) | _
    · exact Sound.bind ((sound_migrateLegacyProjectAlert hm σ₁).mono fun o σ₂ _ => by
        rcases o with (_ | _) | _
        · exact sound_removeLegacyAlerting hm σ₂
        all_goals trivial)
    all_goals trivial
  · simp only [Bool.not_true, Bool.false_eq_true, ite_false]
    trivial

end Loops

/-! ## The app block -/

section App

variable {E : AlertService} {order : MapOrder} {currentVersion : String} {s σ : Store} {cat ext ver : String}
  {a r : App}

variable (E currentVersion s) in
/-- What a run of `Upgrade` that returned the version `v` leaves true: `v` is what the clean run from `s` returns, and
the app records are those the clean run leaves. -/
def Settled (o : Outcome (Except String String)) (σ : Store) : Prop :=
  ∀ v, o = .returned (.ok v) → ((upgrade E .listing currentVersion).exec s).1 = .returned (.ok v) ∧
    σ.tables .app = ((upgrade E .listing currentVersion).exec s).2.tables .app

theorem target_of_upgrade_exec {v : String} (h : ((upgrade E order currentVersion).exec s).1 = .returned (.ok v)) :
    ∃ cat ext ver, ((upgradeTarget E).exec s).1 = .returned (.ok (cat, ext, ver)) := by
  rw [upgrade_exec] at h
  rcases ht : ((upgradeTarget E).exec s).1 with (e | ⟨cat, ext, ver⟩) | m
  · simp [ht] at h
  · exact ⟨cat, ext, ver, rfl⟩
  · simp [ht] at h

/-- Where the app write is due, the clean run returns the new version and writes the new app. -/
theorem upgrade_exec_written (ht : ((upgradeTarget E).exec s).1 = .returned (.ok (cat, ext, ver)))
    (hw : AppWrite E cat ext s a r) :
    (upgrade E order currentVersion).exec s =
      (.returned (.ok ver), (afterMigration E order currentVersion s).setTable .app ((s.tables .app).insert r)) := by
  rw [upgrade_exec, ht, ← @afterMigration_app E order currentVersion s]
  exact upgradeApp_exec_of_write ((AppWrite.congr afterMigration_readOnly afterMigration_app).2 hw)

/-- Where the due app is written, a store in `Reach` has the old apps with the new one. -/
theorem Reach.app_of_written (h : Reach E currentVersion s σ)
    (ht : ((upgradeTarget E).exec s).1 = .returned (.ok (cat, ext, ver))) (hw : AppWrite E cat ext s a r)
    (hr : (σ.tables .app).get (Kind.key .app r) = some r) : σ.tables .app = (s.tables .app).insert r :=
  Table.ext (funext fun κ => by
    rw [Table.insert_get]
    split
    · next hκ => rw [hκ, hr]
    · next hκ =>
      rcases allowed_app ht (h.allowed .app κ) with h' | ⟨a', r', hw', hκ', -⟩
      · exact h'
      · obtain ⟨-, rfl⟩ := hw.unique hw'
        exact absurd hκ' hκ)

/-- Where no app write is due, a store in `Reach` has the old apps. -/
theorem Reach.app_of_not_due (h : Reach E currentVersion s σ)
    (ht : ((upgradeTarget E).exec s).1 = .returned (.ok (cat, ext, ver)))
    (hdue : ∀ a r, ¬ AppWrite E cat ext s a r) :
    σ.tables .app = s.tables .app :=
  Table.ext (funext (app_get_of_not_due ht hdue (h.inv .listing true)))

/-- `Settled` survives every `Keeps` step that keeps `Reach`: an app record holding its old value where the clean run
leaves it so is not one the clean run writes, and no run writes any other. -/
theorem Settled.keeps {o : Outcome (Except String String)} {σ' : Store} (h : Settled E currentVersion s o σ)
    (hk : Keeps s σ σ') (h' : Reach E currentVersion s σ') : Settled E currentVersion s o σ' := fun v hv => by
  obtain ⟨hout, happ⟩ := h v hv
  obtain ⟨cat, ext, ver, ht⟩ := target_of_upgrade_exec hout
  refine ⟨hout, Table.ext (funext fun κ => ?_)⟩
  by_cases hκ : (σ.tables .app).get κ = (s.tables .app).get κ
  · rcases allowed_app ht (h'.allowed .app κ) with h'' | ⟨a, r, hw, rfl, -⟩
    · rw [h'', ← hκ, happ]
    · rw [upgrade_exec_written ht hw, Store.setTable_tables_self] at happ
      have hr := congrArg (Table.get · (Kind.key .app r)) happ
      simp only [Table.insert_get, if_pos rfl, hκ, hw.get_old] at hr
      exact absurd (Option.some.inj hr).symm hw.ne
  · rw [hk.app κ hκ, happ]

theorem settled_rely {o : Outcome (Except String String)} {σ' : Store} (h : Settled E currentVersion s o σ)
    (hr : Rely (Reach E currentVersion s) (Keeps s) σ σ') : Settled E currentVersion s o σ' :=
  hr.keep (fun _ _ h hk h' => h.keeps hk h') h

/-- The app block, after the target resolved, whatever the other runs do and however its calls are met: it writes
only the due app, and where it returns the new version the app records are those the clean run leaves. -/
theorem sound_upgradeApp (ht : ((upgradeTarget E).exec s).1 = .returned (.ok (cat, ext, ver))) (σ : Store) :
    Sound (Reach E currentVersion s) (Keeps s) (Settled E currentVersion s) (upgradeApp E cat ext ver) σ := by
  unfold upgradeApp
  simp only [lift_bind]
  refine sound_read Keeps.refl (fun _ => rfl) fun σ₁ _ h₁ => ⟨?_, fun _ _ h => by cases h⟩
  simp only [Store.answer, h₁.readOnly]
  cases hp : s.readOnly.projects.filter (labelsMatch E.systemProjectLabel ·.labels) with
  | nil => exact fun _ h => by cases h
  | cons p ps =>
    have hsp : systemProject E s = some p := by simp [systemProject, hp]
    simp only [List.map_cons, lift_bind]
    refine sound_read Keeps.refl (fun _ => rfl) fun σ₂ _ h₂ => ⟨?_, fun _ _ h => by cases h⟩
    have hallowed := allowed_app ht (h₂.allowed .app (p.name, E.appName))
    simp only [Store.answer, Table.getE]
    cases ha : (σ₂.tables .app).get (p.name, E.appName) with
    | none =>
      have hs : (s.tables .app).get (p.name, E.appName) = none := by
        rcases hallowed with h | ⟨_, _, _, _, h⟩ <;> rw [ha] at h
        · exact h.symm
        · cases h
      simp only [ApiError.notFound_isNotFound, ite_true, ret_eq_pure]
      intro v hv
      cases hv
      rw [upgrade_exec_current ht hsp (.inl hs), afterMigration_app,
        h₂.app_of_not_due ht (not_appWrite_of_current hsp (.inl hs))]
      exact ⟨rfl, rfl⟩
    | some a' =>
      dsimp only
      cases hn : newApp ext a' with
      | none => exact fun _ h => by cases h
      | some r' =>
        dsimp only
        by_cases hra : r' = a'
        · subst hra
          simp only [if_true, ret_eq_pure]
          intro v hv
          cases hv
          rcases hallowed with h | ⟨a₀, r₀, hw₀, hκ, h⟩ <;> rw [ha] at h
          · have hcur := (newApp_eq_self_iff ext r').1 hn
            rw [upgrade_exec_current ht hsp (.inr ⟨r', h.symm, hcur⟩), afterMigration_app,
              h₂.app_of_not_due ht (not_appWrite_of_current hsp (.inr ⟨r', h.symm, hcur⟩))]
            exact ⟨rfl, rfl⟩
          · cases h
            rw [upgrade_exec_written ht hw₀, h₂.app_of_written ht hw₀ (by rw [← hκ, ha])]
            exact ⟨rfl, by simp⟩
        · have hold : (s.tables .app).get (p.name, E.appName) = some a' := by
            rcases hallowed with h | ⟨a₀, r₀, hw₀, -, h⟩ <;> rw [ha] at h
            · exact h.symm
            · cases h
              exact absurd (Option.some.inj (hn.symm.trans (newApp_newApp hw₀.newApp_eq))) hra
          simp only [hra, if_false, lift_bind]
          refine sound_read Keeps.refl (fun _ => rfl) fun σ₃ _ h₃ => ⟨?_, fun _ _ h => by cases h⟩
          simp only [Store.answer, lookupE, h₃.readOnly]
          cases hc : s.readOnly.clusters E.clusterName with
          | none => exact fun _ h => by cases h
          | some cluster =>
            dsimp only
            cases hcr : cluster.ready
            · simp only [Bool.not_false, ite_true, ret_eq_pure]
              exact fun _ h => by cases h
            simp only [Bool.not_true, Bool.false_eq_true, ite_false, lift_bind]
            refine sound_read Keeps.refl (fun _ => rfl) fun σ₄ _ h₄ => ⟨?_, fun _ _ h => by cases h⟩
            simp only [Store.answer, lookupE, h₄.readOnly]
            cases hk : s.readOnly.catalogs cat with
            | none => exact fun _ h => by cases h
            | some catalog =>
              dsimp only
              cases hb : (!catalog.upgraded || !catalog.refreshed || !catalog.diskCached)
              swap
              · simp only [ite_true, ret_eq_pure]
                exact fun _ h => by cases h
              have hw : AppWrite E cat ext s a' r' :=
                appWrite_of_newApp hsp hold hn hra hc hcr hk (by simpa [Bool.or_eq_false_iff, and_assoc] using hb)
              simp only [Bool.false_eq_true, ite_false, lift_bind]
              intro σ₅ _ h₅
              obtain ⟨hk₅, h₅'⟩ := h₅.updateApp ht hw
              refine ⟨⟨hk₅, h₅', ?_⟩, fun _ => ⟨fun _ h => (by cases h), fun _ h => by cases h⟩⟩
              cases hx : (σ₅.tables .app).get (Kind.key .app r') with
              | none => simp only [Store.answer, hx]; exact fun _ h => by cases h
              | some _ =>
                simp only [Store.answer, hx] at h₅' ⊢
                intro v hv
                cases hv
                rw [upgrade_exec_written ht hw, h₅'.app_of_written ht hw (by simp)]
                exact ⟨rfl, by simp⟩

end App

/-! ## Retrying from a store runs leave -/

section Retry

variable {E : AlertService} {currentVersion : String} {s σ : Store} {cat ext ver : String}

/-- Where the runs do not migrate, a store in `Reach` differs from `s` in its apps only. -/
theorem Reach.eq_setTable_app (h : Reach E currentVersion s σ) (hm : ¬ Migrates E currentVersion s) :
    σ = s.setTable .app (σ.tables .app) :=
  have hinv := h.inv .listing true
  store_eq_setTable_app hinv.readOnly (hinv.namespaces_of_not_migrates hm)
    (fun _ hk κ => hinv.get_of_not_migrates hm hk κ)
    fun _ => rfl

/-- The migration block from a store in `Reach` leaves what it leaves from `s`, with the store's own apps. -/
theorem Reach.afterMigration_eq (h : Reach E currentVersion s σ) (order : MapOrder) :
    afterMigration E order currentVersion σ =
      (afterMigration E order currentVersion s).setTable .app (σ.tables .app) := by
  cases hmk : stringsContains currentVersion monitoringMarker
  · have hinv := h.inv order true
    exact afterMigration_eq_of_migReach hmk ⟨h.readOnly, h.namespaces.imp_right And.right,
      ruleReach_of_inv allowed_clusterAlertRule hinv, groupReach_of_inv allowed_clusterAlertGroup hinv,
      ruleReach_of_inv allowed_projectAlertRule hinv, groupReach_of_inv allowed_projectAlertGroup hinv⟩
  · simp only [afterMigration, hmk, ite_true]
    exact h.eq_setTable_app fun hm => Bool.false_ne_true (hm.2.symm.trans hmk)

/-- Under the target, a store in `Reach` has the old apps, or the old apps with the due one written. -/
theorem Reach.app_eq (h : Reach E currentVersion s σ)
    (ht : ((upgradeTarget E).exec s).1 = .returned (.ok (cat, ext, ver))) :
    σ.tables .app = s.tables .app ∨
      ∃ a r, AppWrite E cat ext s a r ∧ σ.tables .app = (s.tables .app).insert r := by
  by_cases hdue : ∃ a r, AppWrite E cat ext s a r
  · obtain ⟨a, r, hw⟩ := hdue
    rcases allowed_app ht (h.allowed .app (Kind.key .app r)) with h' | ⟨a', r', hw', -, h'⟩
    · refine .inl (Table.ext (funext fun κ => ?_))
      rcases allowed_app ht (h.allowed .app κ) with h'' | ⟨a'', r'', hw'', rfl, -⟩
      · exact h''
      · obtain ⟨-, rfl⟩ := hw.unique hw''
        exact h'
    · obtain ⟨-, rfl⟩ := hw.unique hw'
      exact .inr ⟨_, _, hw, h.app_of_written ht hw h'⟩
  · push_neg at hdue
    exact .inl (h.app_of_not_due ht hdue)

/-- Where the target does not resolve, a store in `Reach` is `s`. -/
theorem Reach.eq_of_not_target (h : Reach E currentVersion s σ)
    (ht : ∀ t, ((upgradeTarget E).exec s).1 ≠ .returned (.ok t)) : σ = s := by
  have hm : ¬ Migrates E currentVersion s := fun hm => ht _ hm.1.choose_spec
  rw [h.eq_setTable_app hm]
  refine (congrArg (s.setTable .app) (Table.ext (funext fun κ => ?_))).trans (Store.setTable_self s .app)
  exact Or.resolve_right (h.allowed .app κ) fun ⟨_, _, _, _, _, h, _⟩ => ht _ h

/-- The clean run of `Upgrade` from a store in `Reach` returns what it returns from `s` and leaves the same store. -/
theorem upgrade_exec_of_reach (h : Reach E currentVersion s σ) (order : MapOrder) :
    (upgrade E order currentVersion).exec σ = (upgrade E order currentVersion).exec s := by
  rw [upgrade_exec, upgrade_exec, upgradeTarget_exec_congr E h.readOnly]
  rcases ht : ((upgradeTarget E).exec s).1 with (e | ⟨cat, ext, ver⟩) | m
  · rw [h.eq_of_not_target fun _ => by rw [ht]; simp]
  · dsimp only
    rw [h.afterMigration_eq]
    rcases h.app_eq ht with happ | ⟨a, r, hw, happ⟩
    · rw [happ, ← @afterMigration_app E order currentVersion s, Store.setTable_self]
    · have hw' := (AppWrite.congr (@afterMigration_readOnly E order currentVersion s) afterMigration_app).2 hw
      rw [happ, ← @afterMigration_app E order currentVersion s]
      exact (upgradeApp_exec_written hw').trans (upgradeApp_exec_of_write hw').symm
  · rw [h.eq_of_not_target fun _ => by rw [ht]; simp]

end Retry

/-! ## Every schedule -/

section Runs

variable (E : AlertService) (currentVersion : String) (s : Store)

/-- A run of `Upgrade`, with any map order, whatever the other runs do and however its calls are met. -/
theorem sound_upgrade (order : MapOrder) (σ : Store) :
    Sound (Reach E currentVersion s) (Keeps s) (Settled E currentVersion s) (upgrade E order currentVersion) σ := by
  unfold upgrade
  refine Sound.bind ((sound_upgradeTarget E σ).mono fun o σ₁ ho => ?_)
  rcases o with (e | ⟨cat, ext, ver⟩) | m
  · exact fun _ h => by cases h
  · have ht := ho _ rfl
    refine Sound.bind ((sound_migrateLegacy ⟨_, ht⟩ σ₁).mono fun o σ₂ _ => ?_)
    rcases o with (_ | e) | m
    · exact sound_upgradeApp ht σ₂
    · exact fun _ h => by cases h
    · exact fun _ h => by cases h
  · exact fun _ h => by cases h

/-- The runs of `Upgrade` from `s` after a schedule: there is no run at first, and a start with a map order adds a
run of `Upgrade` that visits the project IDs in that order. -/
def upgradeRuns (sched : List (Move MapOrder)) : Runs (Except String String) :=
  (Runs.mk s []).moves (fun order => upgrade E order currentVersion) sched

/-- Along every schedule the store stays in `Reach`, and every run is sound. -/
theorem upgradeRuns_sound (sched : List (Move MapOrder)) :
    (upgradeRuns E currentVersion s sched).Sound (Reach E currentVersion s) (Keeps s) (Settled E currentVersion s) :=
  Runs.Sound.moves (S := ⟨s, []⟩) (Q := Settled E currentVersion s) (fun _ _ _ h hr => settled_rely h hr)
    (fun order σ _ => sound_upgrade E currentVersion s order σ)
    ⟨reach_start, fun _ h => absurd h (List.not_mem_nil _)⟩ sched

/-- From `raceStore`, two runs start; the first migrates the rule of alert `a`, and the reply to its group create is
lost, so it returns an error with the group written; then the second runs with every call answered. -/
def lostReplySchedule : List (Move MapOrder) :=
  [.start .listing, .start .listing] ++ List.replicate 4 (.call 0 .answered) ++
    [.call 0 (.lost ⟨"timeout", none⟩)] ++
    List.replicate 12 (.call 1 .answered)

end Runs

end AlertUpgrade
