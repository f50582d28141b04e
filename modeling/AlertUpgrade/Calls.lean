import AlertUpgrade.Recovery

/-!
# How many calls a run of `Upgrade` makes

`Upgrade` neither retries nor polls: each loop runs over a list it read once, and an iteration makes at most three
calls (get the rule, create or update it, create the group). Whatever fails, a run makes at most `9 + 3 n` calls,
`n` the number of legacy alerts of the cluster: one for the template, one per list, three per alert, one to delete
the namespace and five in the app block.

* `CallsWithin ro p n` says that `p` makes at most `n` calls when each reply is one a store with the read-only part
  `ro` can give, or an unexpected failure (`Fits`); only the two lists depend on it. It composes over `>>=` and loops
  (`CallsWithin.bind`, `callsWithin_forEach`);
* no call changes the read-only part (`Store.respond_readOnly`), so it bounds every run (`upgrade_calls_le`);
* among any number of runs sharing the store, a run moves only at its own calls, so it has ended once it has been
  given that many moves, whatever the other runs do (`moves_ended`, `upgradeRuns_ended`): `Upgrade` is wait-free.
-/

namespace AlertUpgrade

open Prog

variable {α β : Type}

/-! ## Calls against a read-only part -/

/-- A reply `c` can get from a store whose read-only part is `ro`: the store's answer, or an unexpected failure. -/
def Fits (ro : ReadOnly) (c : Call) (r : Except ApiError c.Ret) : Prop :=
  (∃ σ : Store, σ.readOnly = ro ∧ (σ.answer c).1 = r) ∨ ∃ m, r = .error (.unexpected m)

/-- `p` makes at most `n` calls when every reply fits `ro`. -/
def CallsWithin (ro : ReadOnly) : Prog α → Nat → Prop
  | .pure _, _ => True
  | .panic _, _ => True
  | .call _ _, 0 => False
  | .call c k, n + 1 => ∀ r, Fits ro c r → CallsWithin ro (k r) n

variable {ro : ReadOnly}

theorem Store.respond_readOnly (s : Store) (c : Call) (f : Option Failure) :
    (s.respond c f).2.readOnly = s.readOnly := by
  cases f
  · cases c <;> simp only [Store.respond, Store.answer] <;> (try split) <;> rfl
  · rfl

theorem fits_respond {σ : Store} (hσ : σ.readOnly = ro) (c : Call) : ∀ f, Fits ro c (σ.respond c f).1
  | none => .inl ⟨σ, hσ, rfl⟩
  | some m => .inr ⟨m, rfl⟩

theorem callsWithin_pure (a : α) (n : Nat) : CallsWithin ro (Prog.pure a) n := trivial

theorem CallsWithin.mono {p : Prog α} {m n : Nat} (h : CallsWithin ro p m) (hmn : m ≤ n) : CallsWithin ro p n := by
  induction p generalizing m n with
  | pure a => trivial
  | panic msg => trivial
  | call c k ih =>
    cases m with
    | zero => simp [CallsWithin] at h
    | succ m =>
      cases n with
      | zero => omega
      | succ n => exact fun r hr => ih r (h r hr) (by omega)

theorem CallsWithin.bind {x : Prog α} {f : α → Prog β} {m n : Nat} (hx : CallsWithin ro x m)
    (hf : ∀ a, CallsWithin ro (f a) n) : CallsWithin ro (x >>= f) (m + n) := by
  induction x generalizing m with
  | pure a => exact (hf a).mono (Nat.le_add_left n m)
  | panic msg => trivial
  | call c k ih =>
    cases m with
    | zero => simp [CallsWithin] at hx
    | succ m =>
      rw [Nat.succ_add]
      exact fun r hr => ih r (hx r hr)

/-- A reply matched into `if !err.IsX() { return ... } else { return ... }`. -/
theorem callsWithin_ite {c : Prop} [Decidable c] {x y : Prog α} {n : Nat} (hx : CallsWithin ro x n)
    (hy : CallsWithin ro y n) : CallsWithin ro (if c then x else y) n := by
  split
  · exact hx
  · exact hy

theorem callsWithin_forEach {γ : Type} {body : γ → Prog (Option String)} {n : Nat} :
    ∀ {vs : List γ}, (∀ v ∈ vs, CallsWithin ro (body v) n) → CallsWithin ro (forEach body vs) (n * vs.length)
  | [], _ => trivial
  | v :: vs, h => by
    rw [forEach, List.length_cons, Nat.mul_succ, Nat.add_comm]
    refine (h v (List.mem_cons_self _ _)).bind fun r => ?_
    cases r
    · exact callsWithin_forEach fun w hw => h w (List.mem_cons_of_mem _ hw)
    · trivial

/-- The bound holds of every run from a store with the read-only part `ro`. -/
theorem CallsWithin.run_calls {p : Prog α} {n : Nat} (h : CallsWithin ro p n) (o : List (Option Failure))
    {σ : Store} (hσ : σ.readOnly = ro) : (p.run o σ).calls.length ≤ n := by
  induction p generalizing n o σ with
  | pure a => simp [run]
  | panic msg => simp [run]
  | call c k ih =>
    cases n with
    | zero => simp [CallsWithin] at h
    | succ n =>
      simpa [run] using ih _ (h _ (fits_respond hσ c _)) o.tail ((Store.respond_readOnly σ c _).trans hσ)

/-! ## The functions -/

theorem callsWithin_migrateRule (k : Kind) (r : k.Obj) (v : ObjectMeta) :
    CallsWithin ro (migrateRule k r v) 2 := by
  rintro (e | o) -
  · refine callsWithin_ite trivial ?_
    rintro (_ | _) -
    · exact callsWithin_ite trivial trivial
    · trivial
  · rintro (_ | _) - <;> trivial

theorem callsWithin_migrateClusterAlert (c : String) (v : ClusterAlert) :
    CallsWithin ro (migrateClusterAlert c v) 3 :=
  (callsWithin_migrateRule _ _ _).bind (n := 1) fun
    | some _ => trivial
    | none => fun
      | .error _, _ => callsWithin_ite trivial trivial
      | .ok _, _ => trivial

theorem callsWithin_migrateProjectAlert (pid name : String) (v : ProjectAlert) :
    CallsWithin ro (migrateProjectAlert pid name v) 3 :=
  (callsWithin_migrateRule _ _ _).bind (n := 1) fun
    | some _ => trivial
    | none => fun
      | .error _, _ => callsWithin_ite (by split <;> trivial) trivial
      | .ok _, _ => trivial

theorem callsWithin_removeLegacyAlerting : CallsWithin ro removeLegacyAlerting 1
  | .error _, _ => callsWithin_ite trivial trivial
  | .ok _, _ => trivial

theorem callsWithin_upgradeTarget (E : AlertService) : CallsWithin ro (upgradeTarget E) 1 := by
  unfold upgradeTarget
  split
  · trivial
  · rintro (_ | _) -
    · trivial
    · simp only [Prog.bind]
      split <;> trivial

theorem callsWithin_upgradeApp (E : AlertService) (cat ext ver : String) :
    CallsWithin ro (upgradeApp E cat ext ver) 5 := by
  rintro (_ | _ | ⟨_ | p, _⟩) -
  all_goals try trivial
  rintro (_ | a) -
  · exact callsWithin_ite trivial trivial
  · simp only [Prog.bind]
    split
    · trivial
    · refine callsWithin_ite trivial ?_
      rintro (_ | cluster) -
      · trivial
      · refine callsWithin_ite trivial ?_
        rintro (_ | catalog) -
        · trivial
        · refine callsWithin_ite trivial ?_
          rintro (_ | _) - <;> trivial

/-! ## The loops over listed alerts -/

/-- The project loop visits each in-cluster legacy project alert once, whatever the map order. -/
theorem projectPlan_perm (c : String) (order : MapOrder) (alerts : List ProjectAlert) :
    (projectPlan c order alerts).Perm (alerts.filter (objectInCluster c)) := by
  refine List.perm_iff_count.2 fun v => ?_
  have hv : ∀ w ∈ alerts, objectInCluster c w → (w == v) = true → w.spec.projectName = v.spec.projectName :=
    fun w _ _ h => by rw [beq_iff_eq.1 h]
  rw [List.count_eq_countP, List.count_eq_countP, List.countP_eq_length_filter, List.countP_eq_length_filter,
    filter_projectPlan order alerts hv]

theorem callsWithin_migrateLegacyClusterAlert (E : AlertService) :
    CallsWithin ro (migrateLegacyClusterAlert E)
      (3 * (ro.clusterAlerts.filter (·.meta.ns == E.clusterName)).length + 1) := by
  rintro r (⟨σ, rfl, rfl⟩ | ⟨m, rfl⟩)
  · exact callsWithin_forEach fun v _ => callsWithin_migrateClusterAlert _ v
  · trivial

theorem callsWithin_migrateLegacyProjectAlert (E : AlertService) (order : MapOrder) :
    CallsWithin ro (migrateLegacyProjectAlert E order)
      (3 * (ro.projectAlerts.filter (objectInCluster E.clusterName)).length + 1) := by
  rintro r (⟨σ, rfl, rfl⟩ | ⟨m, rfl⟩)
  · show CallsWithin _ (forEach migrateProjectBucket _) _
    rw [forEach_buckets, ← (projectPlan_perm E.clusterName order σ.readOnly.projectAlerts).length_eq]
    exact callsWithin_forEach fun v _ => callsWithin_migrateProjectAlert _ _ v
  · trivial

/-! ## `Upgrade` -/

theorem callsWithin_migrateLegacy (E : AlertService) (order : MapOrder) (currentVersion : String) :
    CallsWithin ro (migrateLegacy E order currentVersion) (3 + 3 * ((ro.clusterAlerts.filter
      (·.meta.ns == E.clusterName)).length + (ro.projectAlerts.filter (objectInCluster E.clusterName)).length)) := by
  unfold migrateLegacy
  split
  · refine CallsWithin.mono ((callsWithin_migrateLegacyClusterAlert E).bind fun
      | none => (callsWithin_migrateLegacyProjectAlert E order).bind fun
        | none => callsWithin_removeLegacyAlerting
        | some _ => callsWithin_pure _ _
      | some _ => callsWithin_pure _ _) ?_
    omega
  · trivial

theorem callsWithin_upgrade (E : AlertService) (order : MapOrder) (currentVersion : String) :
    CallsWithin ro (upgrade E order currentVersion) (9 + 3 * ((ro.clusterAlerts.filter
      (·.meta.ns == E.clusterName)).length + (ro.projectAlerts.filter (objectInCluster E.clusterName)).length)) := by
  refine CallsWithin.mono ((callsWithin_upgradeTarget E).bind fun
    | .ok _ => (callsWithin_migrateLegacy E order currentVersion).bind fun
      | none => callsWithin_upgradeApp E _ _ _
      | some _ => callsWithin_pure _ _
    | .error _ => callsWithin_pure _ _) ?_
  omega

/-- A run of `Upgrade` makes at most `9 + 3 n` store calls, `n` the number of legacy alerts of the cluster, whatever
its calls meet. -/
theorem upgrade_calls_le (E : AlertService) (order : MapOrder) (currentVersion : String) (s : Store) :
    wp (upgrade E order currentVersion) (fun _ _ cs => cs.length ≤
      9 + 3 * ((listedClusterAlerts E.clusterName s).length +
        (s.readOnly.projectAlerts.filter (objectInCluster E.clusterName)).length)) s :=
  fun o => (callsWithin_upgrade E order currentVersion).run_calls o rfl

/-! ## Runs sharing the store -/

/-- `p` has ended: it returned or panicked. -/
def Prog.Ended : Prog α → Prop
  | .call _ _ => False
  | _ => True

theorem CallsWithin.ended {p : Prog α} (h : CallsWithin ro p 0) : p.Ended := by
  cases p with
  | call c k => exact h
  | pure a => trivial
  | panic msg => trivial

theorem Prog.meet_readOnly (p : Prog α) (σ : Store) (reply : Reply) : (p.meet σ reply).2.readOnly = σ.readOnly := by
  cases p <;> cases reply <;> first | rfl | exact Store.respond_readOnly σ _ none

/-- A move of a run spends one of its calls. -/
theorem CallsWithin.meet {p : Prog α} {n : Nat} (h : CallsWithin ro p n) {σ : Store} (hσ : σ.readOnly = ro)
    (reply : Reply) : CallsWithin ro (p.meet σ reply).1 (n - 1) := by
  cases p with
  | pure a => trivial
  | panic msg => trivial
  | call c k =>
    cases n with
    | zero => exact absurd h id
    | succ n =>
      cases reply with
      | answered => exact h _ (.inl ⟨σ, hσ, rfl⟩)
      | failed m => exact h _ (.inr ⟨m, rfl⟩)
      | lost m => exact h _ (.inr ⟨m, rfl⟩)

/-- The move is a call of run `i`. -/
def Move.isCallOf {ι : Type} (i : Nat) : Move ι → Bool
  | .call j _ => j == i
  | .start _ => false

namespace Runs

variable {ι : Type} (spawn : ι → Prog α) {S : Runs α} {i : Nat} {p : Prog α}

theorem move_readOnly (S : Runs α) (m : Move ι) : (S.move spawn m).store.readOnly = S.store.readOnly := by
  cases m with
  | call j reply =>
    simp only [move]
    split
    · exact Prog.meet_readOnly _ _ _
    · rfl
  | start x => rfl

theorem move_call_self (hp : S.runs[i]? = some p) (reply : Reply) :
    (S.move spawn (.call i reply)).runs[i]? = some (p.meet S.store reply).1 := by
  simp only [move, hp]
  exact List.getElem?_set_self (List.getElem?_eq_some_iff.1 hp).1

/-- A run moves only at its own calls. -/
theorem move_other (hp : S.runs[i]? = some p) {m : Move ι} (hm : m.isCallOf i = false) :
    (S.move spawn m).runs[i]? = some p := by
  cases m with
  | call j reply =>
    have hj : j ≠ i := by simpa [Move.isCallOf] using hm
    simp only [move]
    split
    · rw [List.getElem?_set_ne hj, hp]
    · exact hp
  | start x => exact (List.getElem?_append_left (List.getElem?_eq_some_iff.1 hp).1).trans hp

/-- Wait-freedom: a run that makes at most `n` calls has ended once the schedule has given it `n` moves, whatever the
other moves are. -/
theorem moves_ended (hp : S.runs[i]? = some p) {n : Nat} (hro : S.store.readOnly = ro) (h : CallsWithin ro p n)
    (sched : List (Move ι)) (hn : n ≤ sched.countP (Move.isCallOf i)) :
    ∃ q, (S.moves spawn sched).runs[i]? = some q ∧ q.Ended := by
  induction sched generalizing S p n with
  | nil => exact ⟨p, hp, (h.mono (by simpa using hn)).ended⟩
  | cons m sched ih =>
    have hro' := (move_readOnly spawn S m).trans hro
    rw [List.countP_cons] at hn
    cases hm : m.isCallOf i
    · exact ih (move_other spawn hp hm) hro' h (by simpa [hm] using hn)
    · obtain ⟨j, reply, rfl⟩ : ∃ j reply, m = .call j reply := by
        cases m with
        | call j reply => exact ⟨j, reply, rfl⟩
        | start x => cases hm
      obtain rfl : j = i := by simpa [Move.isCallOf] using hm
      exact ih (move_call_self spawn hp reply) hro' (h.meet hro reply) (by rw [if_pos hm] at hn; omega)

end Runs

section Runs

variable (E : AlertService) (currentVersion : String) (s : Store)

/-- `Upgrade` is wait-free: among any number of runs of `Upgrade` from `s`, interleaved call by call, with any call
failing or losing its reply, a run started at any point has returned or panicked once it has been given
`9 + 3 n` moves, `n` the number of legacy alerts of the cluster, whatever the other runs do. -/
theorem upgradeRuns_ended (order : MapOrder) (sched later : List (Move MapOrder))
    (hlater : 9 + 3 * ((listedClusterAlerts E.clusterName s).length +
      (s.readOnly.projectAlerts.filter (objectInCluster E.clusterName)).length) ≤
        later.countP (Move.isCallOf (upgradeRuns E currentVersion s sched).runs.length)) :
    ∃ q, (upgradeRuns E currentVersion s (sched ++ .start order :: later)).runs[
      (upgradeRuns E currentVersion s sched).runs.length]? = some q ∧ q.Ended := by
  rw [upgradeRuns, Runs.moves_append, Runs.moves_cons]
  exact Runs.moves_ended (S := ((Runs.mk s []).moves _ sched).move _ (.start order)) _
    (List.getElem?_concat_length _ _) (upgradeRuns_sound E currentVersion s sched).store.readOnly
    (callsWithin_upgrade E order currentVersion) later hlater

/-- Twelve turns: a call of run `0` fails, then a call of run `1` is answered. -/
def failingTurns : List (Move MapOrder) :=
  (List.replicate 12 [.call 0 (.failed ⟨"timeout", none⟩), .call 1 .answered]).flatten

/-- From `raceStore`, a run started after another has ended after `failingTurns`, which give it twelve moves, the
bound for one legacy alert. -/
theorem failingTurns_ended :
    9 + 3 * ((listedClusterAlerts nilAnswersService.clusterName raceStore).length +
      (raceStore.readOnly.projectAlerts.filter (objectInCluster nilAnswersService.clusterName)).length) ≤
        failingTurns.countP
          (Move.isCallOf (upgradeRuns nilAnswersService "" raceStore [.start .listing]).runs.length) ∧
    ∃ q, (upgradeRuns nilAnswersService "" raceStore ([.start .listing] ++ .start .listing :: failingTurns)).runs[
        (upgradeRuns nilAnswersService "" raceStore [.start .listing]).runs.length]? = some q ∧ q.Ended :=
  have h : 9 + 3 * ((listedClusterAlerts nilAnswersService.clusterName raceStore).length +
      (raceStore.readOnly.projectAlerts.filter (objectInCluster nilAnswersService.clusterName)).length) ≤
        failingTurns.countP
          (Move.isCallOf (upgradeRuns nilAnswersService "" raceStore [.start .listing]).runs.length) :=
    by decide
  ⟨h, upgradeRuns_ended nilAnswersService "" raceStore .listing [.start .listing] _ h⟩

end Runs

end AlertUpgrade
