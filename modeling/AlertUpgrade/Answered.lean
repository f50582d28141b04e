import AlertUpgrade.Calls

/-!
# A run that meets no failure

Among any number of runs of `Upgrade` sharing the store, some of whose calls fail or lose their replies, take a run
whose own calls are all answered. Its calls meet stores the other runs have changed: a rule it found may have been
rewritten, a group or a namespace it creates or deletes may be there or gone already, the app it fetched may have
been upgraded since. None of this changes its outcome: it ends as the run of `Upgrade` from the first store with every
call answered ends, with the same version, the same error or the same panic (`upgradeRuns_answered`).

* `Answered R G Q p σ` is `Sound` without the failing replies: at each call, made at any store the other runs reach,
  the run goes on with the store's answer, and where it ends `Q` holds. It composes over `>>=` (`Answered.bind`),
  and a run stays `Answered` along every schedule that answers its calls (`Runs.answered_moves`);
* reads answer from the read-only part, which no run changes (`answered_reads`);
* the migration block returns `nil`: a create meets `AlreadyExists` at worst, and a rule found stays there for the
  update, since no run deletes a record (`answered_migrateLegacy`);
* the app block fetches the old app or the app another run wrote; from the old one it goes on in lockstep with the
  clean run, reading and updating only the fetched record (`answered_lockstep`), and the written one it finds current
  (`answered_upgradeApp`).
-/

namespace AlertUpgrade

open Prog

/-! ## Runs whose calls are answered -/

section Answered

variable {α : Type} (R : Store → Prop) (G : Store → Store → Prop) (Q : Outcome α → Store → Prop)

/-- The run `p`, resumed at `σ`, with its calls answered: each call, made at any store the other runs reach from `σ`,
gets the store's answer; where the run ends, `Q` holds. -/
def Answered : Prog α → Store → Prop
  | .pure a, σ => Q (.returned a) σ
  | .panic m, σ => Q (.panicked m) σ
  | .call c k, σ => ∀ σ', Rely R G σ σ' → R σ' → Answered (k (σ'.answer c).1) (σ'.answer c).2

variable {R G Q}

theorem Answered.rely (hQ : ∀ o σ σ', Q o σ → Rely R G σ σ' → Q o σ') {p : Prog α} {σ σ' : Store}
    (h : Answered R G Q p σ) (hr : Rely R G σ σ') : Answered R G Q p σ' := by
  cases p with
  | pure a => exact hQ _ _ _ h hr
  | panic m => exact hQ _ _ _ h hr
  | call c k => exact fun σ'' hr' => h σ'' (hr.trans hr')

theorem Answered.mono {Q' : Outcome α → Store → Prop} (hQ : ∀ o σ, Q o σ → Q' o σ) :
    ∀ {p : Prog α} {σ : Store}, Answered R G Q p σ → Answered R G Q' p σ
  | .pure _, _, h | .panic _, _, h => hQ _ _ h
  | .call _ _, _, h => fun σ' hr hR => (h σ' hr hR).mono hQ

/-- What `x` must end in for `x >>= f` to be answered with postcondition `Q`. -/
def answeredPost {β : Type} (f : β → Prog α) : Outcome β → Store → Prop
  | .returned b, σ => Answered R G Q (f b) σ
  | .panicked m, σ => Q (.panicked m) σ

theorem Answered.bind {β : Type} {f : β → Prog α} :
    ∀ {x : Prog β} {σ : Store}, Answered R G (answeredPost (R := R) (G := G) (Q := Q) f) x σ →
      Answered R G Q (x >>= f) σ
  | .pure _, _, h | .panic _, _, h => h
  | .call _ _, _, h => fun σ' hr hR => Answered.bind (h σ' hr hR)

/-- The next call, answered at the store the run is at. -/
theorem Answered.meet {p : Prog α} {σ : Store} (h : Answered R G Q p σ) (hR : R σ) :
    Answered R G Q (p.meet σ .answered).1 (p.meet σ .answered).2 := by
  cases p with
  | pure a => exact h
  | panic m => exact h
  | call c k => exact h σ .refl hR

/-- A run that has ended has its outcome, and `Q` holds of it. -/
theorem Answered.result {p : Prog α} {σ : Store} (h : Answered R G Q p σ) (he : p.Ended) :
    ∃ o, p.result = some o ∧ Q o σ := by
  cases p with
  | pure a => exact ⟨_, rfl, h⟩
  | panic m => exact ⟨_, rfl, h⟩
  | call c k => exact absurd he id

end Answered

namespace Runs

theorem move_call_store {α ι : Type} (spawn : ι → Prog α) {S : Runs α} {i : Nat} {p : Prog α}
    (hp : S.runs[i]? = some p) (reply : Reply) : (S.move spawn (.call i reply)).store = (p.meet S.store reply).2 := by
  simp only [move, hp]

variable {α ι : Type} {R : Store → Prop} {G : Store → Store → Prop} {Q Q' : Outcome α → Store → Prop}
  {spawn : ι → Prog α} (hQ : ∀ o σ σ', Q o σ → Rely R G σ σ' → Q o σ')
  (hspawn : ∀ x σ, R σ → AlertUpgrade.Sound R G Q (spawn x) σ) (hQ' : ∀ o σ σ', Q' o σ → Rely R G σ σ' → Q' o σ')

include hQ hspawn hQ' in
/-- A run whose calls the schedule answers stays `Answered`, whatever the other runs do. -/
theorem answered_moves {S : Runs α} (h : S.Sound R G Q) {i : Nat} {p : Prog α} (hp : S.runs[i]? = some p)
    (ha : Answered R G Q' p S.store) (sched : List (Move ι)) (hans : ∀ r, Move.call i r ∈ sched → r = .answered) :
    ∃ q, (S.moves spawn sched).runs[i]? = some q ∧ Answered R G Q' q (S.moves spawn sched).store := by
  induction sched generalizing S p with
  | nil => exact ⟨p, hp, ha⟩
  | cons m sched ih =>
    have hans' : ∀ r, Move.call i r ∈ sched → r = .answered := fun r hr => hans r (List.mem_cons_of_mem _ hr)
    cases hm : m.isCallOf i
    · exact ih (h.move hQ hspawn m) (move_other spawn hp hm) (ha.rely hQ' (h.rely_move m)) hans'
    · obtain ⟨reply, rfl⟩ : ∃ reply, m = .call i reply := by
        cases m with
        | call j reply =>
          obtain rfl : j = i := by simpa [Move.isCallOf] using hm
          exact ⟨reply, rfl⟩
        | start x => cases hm
      obtain rfl := hans reply (List.mem_cons_self _ _)
      exact ih (h.move hQ hspawn _) (move_call_self spawn hp .answered)
        (move_call_store spawn hp .answered ▸ ha.meet h.store) hans'

end Runs

/-! ## The blocks of `Upgrade` -/

section Blocks

variable {E : AlertService} {order : MapOrder} {currentVersion : String} {s : Store}

/-- A program that only reads ends, with its calls answered, as its clean run from `s`. -/
theorem answered_reads {α : Type} {p : Prog α} (hp : AllCalls Call.IsRead p) (σ : Store) :
    Answered (Reach E currentVersion s) (Keeps s) (fun o _ => o = (p.exec s).1) p σ := by
  induction p generalizing σ with
  | pure a => rfl
  | panic m => rfl
  | call c k ih =>
    intro σ' _ h'
    rw [exec_call, (hp.1.answer s).1, hp.1.answer_congr h'.readOnly, (hp.1.answer σ').1]
    exact ih _ (hp.2 _) σ'

/-- A create whose `nil` and `AlreadyExists` replies lead to `return nil` returns `nil`. -/
theorem answered_create {k : Kind} {g : k.Obj} {h : Except ApiError k.Obj → Prog (Option String)}
    (hok : ∀ g', h (.ok g') = .pure none) (hae : ∀ res n, h (.error (.alreadyExists res n)) = .pure none)
    (σ : Store) :
    Answered (Reach E currentVersion s) (Keeps s) (fun o _ => o = .returned none) (.call (.create k g) h) σ := by
  intro σ' _ _
  cases hy : (σ'.tables k).get (k.key g) with
  | none =>
    rw [answer_create_of_none hy, hok]
    exact rfl
  | some y =>
    rw [answer_create_of_isSome (by rw [hy]; rfl), hae]
    exact rfl

/-- A rule step returns `nil`: a get that misses is followed by a create, and a get that finds the rule by an update
of a record no run deletes. -/
theorem answered_migrateRule (k : Kind) (r : k.Obj) (v : ObjectMeta) (σ : Store) :
    Answered (Reach E currentVersion s) (Keeps s) (fun o _ => o = .returned none) (migrateRule k r v) σ := by
  simp only [migrateRule, lift_bind]
  intro σ₁ _ _
  simp only [Store.answer, Table.getE]
  cases hx : (σ₁.tables k).get (k.key r) with
  | none => exact answered_create (fun _ => rfl) (fun _ _ => rfl) σ₁
  | some x =>
    intro σ₂ hr _
    have hkx : k.key (k.withSpec x r) = k.key r := by rw [Kind.key_withSpec, (σ₁.tables k).get_key hx]
    have hy : ((σ₂.tables k).get (k.key (k.withSpec x r))).isSome :=
      hkx ▸ hr.keep (fun _ _ h hk _ => hk.kept _ _ h) (by rw [hx]; rfl)
    rw [answer_update_of_isSome hy]
    exact rfl

/-- A loop whose body returns `nil` on every element returns `nil`. -/
theorem answered_forEach {β : Type} {body : β → Prog (Option String)}
    (h : ∀ v σ, Answered (Reach E currentVersion s) (Keeps s) (fun o _ => o = .returned none) (body v) σ) :
    ∀ (vs : List β) (σ : Store),
      Answered (Reach E currentVersion s) (Keeps s) (fun o _ => o = .returned none) (forEach body vs) σ
  | [], _ => rfl
  | v :: vs, σ => by
    rw [forEach]
    exact Answered.bind ((h v σ).mono fun o σ' ho => by subst ho; exact answered_forEach h vs σ')

theorem answered_migrateClusterAlert (c : String) (v : ClusterAlert) (σ : Store) :
    Answered (Reach E currentVersion s) (Keeps s) (fun o _ => o = .returned none) (migrateClusterAlert c v) σ :=
  Answered.bind ((answered_migrateRule _ _ _ σ).mono fun o σ' ho => by
    subst ho
    simp only [answeredPost, lift_bind]
    exact answered_create (fun _ => rfl) (fun _ _ => rfl) σ')

theorem answered_migrateProjectAlert (pid name : String) (v : ProjectAlert) (σ : Store) :
    Answered (Reach E currentVersion s) (Keeps s) (fun o _ => o = .returned none) (migrateProjectAlert pid name v) σ :=
  Answered.bind ((answered_migrateRule _ _ _ σ).mono fun o σ' ho => by
    subst ho
    simp only [answeredPost, lift_bind]
    exact answered_create (fun _ => rfl) (fun _ _ => rfl) σ')

theorem answered_removeLegacyAlerting (σ : Store) :
    Answered (Reach E currentVersion s) (Keeps s) (fun o _ => o = .returned none) removeLegacyAlerting σ := by
  intro σ' _ _
  simp only [Store.answer]
  split <;> exact rfl

theorem answered_migrateLegacyClusterAlert (E : AlertService) (σ : Store) :
    Answered (Reach E currentVersion s) (Keeps s) (fun o _ => o = .returned none) (migrateLegacyClusterAlert E) σ := by
  simp only [migrateLegacyClusterAlert, lift_bind]
  intro σ' _ _
  simp only [Store.answer]
  exact answered_forEach (answered_migrateClusterAlert E.clusterName) _ σ'

theorem answered_migrateLegacyProjectAlert (E : AlertService) (order : MapOrder) (σ : Store) :
    Answered (Reach E currentVersion s) (Keeps s) (fun o _ => o = .returned none)
      (migrateLegacyProjectAlert E order) σ := by
  rw [migrateLegacyProjectAlert, lift_bind]
  intro σ' _ _
  simp only [Store.answer]
  have hbucket : ∀ e σ, Answered (Reach E currentVersion s) (Keeps s) (fun o _ => o = .returned none)
      (migrateProjectBucket e) σ := fun e => answered_forEach (answered_migrateProjectAlert e.1 (refParse e.1).2) e.2
  exact answered_forEach hbucket _ σ'

/-- The migration block returns `nil`, whichever alerts the lists return. -/
theorem answered_migrateLegacy (σ : Store) :
    Answered (Reach E currentVersion s) (Keeps s) (fun o _ => o = .returned none)
      (migrateLegacy E order currentVersion) σ := by
  unfold migrateLegacy
  split
  · refine Answered.bind ((answered_migrateLegacyClusterAlert E σ).mono fun o σ₁ ho => ?_)
    subst ho
    refine Answered.bind ((answered_migrateLegacyProjectAlert E order σ₁).mono fun o σ₂ ho => ?_)
    subst ho
    exact answered_removeLegacyAlerting σ₂
  · exact rfl

/-! ## The app block -/

theorem answer_update_app_get {σ : Store} {r : App} {κ : Key} (hr : Kind.key .app r = κ)
    (h : ((σ.tables .app).get κ).isSome) : ((σ.answer (.update .app r)).2.tables .app).get κ = some r := by
  obtain ⟨o, ho⟩ := Option.isSome_iff_exists.1 h
  subst hr
  simp [Store.answer, ho]

theorem newApp_key {ext : String} {a n : App} (h : newApp ext a = some n) : Kind.key .app n = Kind.key .app a := by
  rcases a with ⟨meta, spec⟩
  rcases spec with ⟨projectName, targetNamespace, externalID, _ | answers⟩
  · cases h
  · cases h
    rfl

/-- A program whose calls are reads and updates of the app record at `κ` ends, with its calls answered, as its clean
run from a store `t` with the read-only part of `s`, as long as both hold a record at `κ`: no run deletes it, so each
update meets it, as the clean run's does. -/
theorem answered_lockstep {α : Type} {κ : Key} {p : Prog α}
    (hp : AllCalls (fun c => c.IsRead ∨ ∃ r, c = .update .app r ∧ Kind.key .app r = κ) p) {t σ : Store}
    (htr : t.readOnly = s.readOnly) (htκ : ((t.tables .app).get κ).isSome) (hσκ : ((σ.tables .app).get κ).isSome) :
    Answered (Reach E currentVersion s) (Keeps s) (fun o _ => o = (p.exec t).1) p σ := by
  induction p generalizing t σ with
  | pure a => rfl
  | panic m => rfl
  | call c k ih =>
    intro σ' hr h'
    have hσ'κ : ((σ'.tables .app).get κ).isSome := hr.keep (fun _ _ h hk _ => hk.kept _ _ h) hσκ
    rw [exec_call]
    rcases hp.1 with hc | ⟨r, rfl, hrκ⟩
    · rw [(hc.answer t).1, hc.answer_congr (h'.readOnly.trans htr.symm), (hc.answer σ').1]
      exact ih _ (hp.2 _) htr htκ hσ'κ
    · rw [answer_update_of_isSome (by rwa [hrκ]), answer_update_of_isSome (by rwa [hrκ])]
      exact ih _ (hp.2 _) ((Store.respond_readOnly t _ none).trans htr)
        (by rw [answer_update_app_get hrκ htκ]; rfl) (by rw [answer_update_app_get hrκ hσ'κ]; rfl)

/-- The app block ends, with its calls answered, as its clean run from `t`, a store with the read-only part and the
apps of `s`: it fetches the old app and goes on in lockstep with the clean run, or fetches the app another run wrote
and finds it current, while the clean run writes it. -/
theorem answered_upgradeApp {cat ext ver : String} (ht : ((upgradeTarget E).exec s).1 = .returned (.ok (cat, ext, ver)))
    {t : Store} (htr : t.readOnly = s.readOnly) (hta : t.tables .app = s.tables .app) (σ : Store) :
    Answered (Reach E currentVersion s) (Keeps s) (fun o _ => o = ((upgradeApp E cat ext ver).exec t).1)
      (upgradeApp E cat ext ver) σ := by
  generalize hout : ((upgradeApp E cat ext ver).exec t).1 = out
  have hclean := hout
  rw [upgradeApp, lift_bind]
  intro σ₁ _ h₁
  simp only [Store.answer, h₁.readOnly]
  simp only [upgradeApp, lift_bind, exec_call, Store.answer, htr] at hout
  cases hp : s.readOnly.projects.filter (labelsMatch E.systemProjectLabel ·.labels) with
  | nil =>
    simp only [hp, List.map_nil, exec_pure] at hout
    exact hout
  | cons p ps =>
    simp only [hp, List.map_cons, exec_call, Store.answer, Table.getE, hta] at hout
    simp only [lift_bind]
    intro σ₂ _ h₂
    simp only [Store.answer, Table.getE]
    rcases allowed_app ht (h₂.allowed .app (p.name, E.appName)) with hold | ⟨a₀, r₀, hw₀, -, hx⟩
    · rw [hold]
      cases hs : (s.tables .app).get (p.name, E.appName) with
      | none =>
        simp only [hs, exec_pure] at hout
        exact hout
      | some a =>
        simp only [hs] at hout ⊢
        subst hout
        refine answered_lockstep (κ := (p.name, E.appName)) ?_ htr (by rw [hta, hs]; rfl) (by rw [hold, hs]; rfl)
        have hκ : Kind.key .app a = (p.name, E.appName) := (s.tables .app).get_key hs
        cases hn : newApp ext a with
        | none => trivial
        | some n =>
          exact allCalls_ite trivial ⟨.inl trivial, fun
            | .error _ => trivial
            | .ok _ => allCalls_ite trivial ⟨.inl trivial, fun
              | .error _ => trivial
              | .ok _ => allCalls_ite trivial
                ⟨.inr ⟨n, rfl, (newApp_key hn).trans hκ⟩, fun | .error _ | .ok _ => trivial⟩⟩⟩
    · rw [upgradeApp_exec_of_write ((AppWrite.congr htr hta).2 hw₀)] at hclean
      rw [hx]
      simp only [newApp_newApp hw₀.newApp_eq, if_pos rfl]
      exact hclean

/-- A run of `Upgrade` whose calls are all answered ends as the clean run from `s`, whatever the other runs do. -/
theorem answered_upgrade (order : MapOrder) (σ : Store) :
    Answered (Reach E currentVersion s) (Keeps s) (fun o _ => o = ((upgrade E order currentVersion).exec s).1)
      (upgrade E order currentVersion) σ := by
  rw [upgrade_exec]
  refine Answered.bind ((answered_reads (upgradeTarget_reads E) σ).mono fun o σ₁ ho => ?_)
  subst ho
  rcases ht : ((upgradeTarget E).exec s).1 with (e | ⟨cat, ext, ver⟩) | m
  · exact rfl
  · refine Answered.bind ((answered_migrateLegacy σ₁).mono fun o σ₂ ho => ?_)
    subst ho
    exact answered_upgradeApp ht afterMigration_readOnly afterMigration_app σ₂
  · exact rfl

end Blocks

/-! ## Every schedule -/

section Runs

variable (E : AlertService) (currentVersion : String) (s : Store)

/-- A run that meets no failure ends as the clean run: among any number of runs of `Upgrade` from `s`, each visiting
the project IDs in an order of its own and started at any time, interleaved call by call, with any call of the other
runs failing before it reaches the store or losing its reply after it took effect, a run started at any point whose
own calls are all answered has, once given `9 + 3 n` moves (`n` the number of legacy alerts of the cluster), ended
with the outcome of the run of `Upgrade` from `s` with every call answered: the same version, error or panic. -/
theorem upgradeRuns_answered (order : MapOrder) (sched later : List (Move MapOrder))
    (hans : ∀ r, Move.call (upgradeRuns E currentVersion s sched).runs.length r ∈ later → r = .answered)
    (hlater : 9 + 3 * ((listedClusterAlerts E.clusterName s).length +
      (s.readOnly.projectAlerts.filter (objectInCluster E.clusterName)).length) ≤
        later.countP (Move.isCallOf (upgradeRuns E currentVersion s sched).runs.length)) :
    ∃ q, (upgradeRuns E currentVersion s (sched ++ .start order :: later)).runs[
      (upgradeRuns E currentVersion s sched).runs.length]? = some q ∧
        q.result = some ((upgrade E order currentVersion).exec s).1 := by
  have hS := Runs.Sound.move (Q := Settled E currentVersion s) (fun _ _ _ h hr => settled_rely h hr)
    (fun order σ _ => sound_upgrade E currentVersion s order σ) (upgradeRuns_sound E currentVersion s sched)
    (.start order)
  rw [upgradeRuns, Runs.moves_append, Runs.moves_cons]
  have hp : (((Runs.mk s []).moves (fun order => upgrade E order currentVersion) sched).move
      (fun order => upgrade E order currentVersion) (.start order)).runs[
        ((Runs.mk s []).moves (fun order => upgrade E order currentVersion) sched).runs.length]? =
      some (upgrade E order currentVersion) := List.getElem?_concat_length _ _
  obtain ⟨q, hq, he⟩ := Runs.moves_ended _ hp hS.store.readOnly (callsWithin_upgrade E order currentVersion) later
    hlater
  obtain ⟨q', hq', ha⟩ := Runs.answered_moves (Q := Settled E currentVersion s) (fun _ _ _ h hr => settled_rely h hr)
    (fun order σ _ => sound_upgrade E currentVersion s order σ) (fun _ _ _ h _ => h) hS hp
    (answered_upgrade order _) later hans
  obtain rfl : q' = q := Option.some.inj (hq'.symm.trans hq)
  obtain ⟨o, ho, rfl⟩ := ha.result he
  exact ⟨q', hq, ho⟩

/-- From `raceStore`, along `failingTurns` every call of the first run fails and every call of the second is
answered; the second has then ended with the outcome of the clean run, the new version. -/
theorem failingTurns_answered :
    (∀ r, Move.call (upgradeRuns nilAnswersService "" raceStore [.start .listing]).runs.length r ∈ failingTurns →
      r = .answered) ∧
    9 + 3 * ((listedClusterAlerts nilAnswersService.clusterName raceStore).length +
      (raceStore.readOnly.projectAlerts.filter (objectInCluster nilAnswersService.clusterName)).length) ≤
        failingTurns.countP
          (Move.isCallOf (upgradeRuns nilAnswersService "" raceStore [.start .listing]).runs.length) ∧
    ∃ q, (upgradeRuns nilAnswersService "" raceStore ([.start .listing] ++ .start .listing :: failingTurns)).runs[
        (upgradeRuns nilAnswersService "" raceStore [.start .listing]).runs.length]? = some q ∧
      q.result = some ((upgrade nilAnswersService .listing "").exec raceStore).1 :=
  have hans : ∀ r, Move.call (upgradeRuns nilAnswersService "" raceStore [.start .listing]).runs.length r ∈
      failingTurns → r = .answered := fun r hr => by
    simpa [failingTurns, upgradeRuns, Runs.move] using hr
  have h : 9 + 3 * ((listedClusterAlerts nilAnswersService.clusterName raceStore).length +
      (raceStore.readOnly.projectAlerts.filter (objectInCluster nilAnswersService.clusterName)).length) ≤
        failingTurns.countP
          (Move.isCallOf (upgradeRuns nilAnswersService "" raceStore [.start .listing]).runs.length) :=
    by decide
  ⟨hans, h, upgradeRuns_answered nilAnswersService "" raceStore .listing [.start .listing] failingTurns hans h⟩

end Runs

end AlertUpgrade
