import AlertUpgrade.Rely

/-!
# The migration loops racing

Each iteration of a migration loop gets the rule's key, then creates or updates the rule, then creates the group.
Another run may act between any two of these calls; it writes only values the invariant allows, so:

* a get that finds the key empty means the old store had no rule there; a create that then meets `AlreadyExists`
  leaves a rule the other run wrote, which is a translation of an alert with this key (`RuleReach.eq_of_none`);
* an update writes the fetched rule with the new spec, and whatever the fetched rule was, that is the new rule upserted
  over the old one (`RuleReach.withSpec_eq`);
* a group create that finds the key empty comes before every other alert with that key in the loop, so it writes the
  group the solo run keeps (`GroupsDone`).

`safe_alertLoop` carries `RulesDone` and `GroupsDone` over a whole loop, for both loops at once: the kinds, the
translations and the alert list are parameters.
-/

namespace AlertUpgrade

open Prog

section Reach

variable {β : Type} {kr kg : Kind} {rule : β → kr.Obj} {group : β → kg.Obj} {xs : List β} {κ : Key}

theorem RuleReach.eq_of_none {o : Option kr.Obj} (h : RuleReach kr rule xs κ o none) : o = none := by
  rcases h with h | ⟨_, _, _, h⟩
  · exact h.symm
  · cases h

/-- Updating any rule a loop can leave at a key with the spec of a rule for that key writes that rule upserted over
the old one. -/
theorem RuleReach.withSpec_eq (hfresh : ∀ x, kr.Fresh (rule x)) {o : Option kr.Obj} {x : kr.Obj}
    (h : RuleReach kr rule xs κ o (some x)) {v : β} (hv : kr.key (rule v) = κ) :
    kr.withSpec x (rule v) = kr.upsertVal o (rule v) := by
  rcases h with h | ⟨w, -, hw, h⟩
  · rw [← h, Kind.upsertVal_some]
  · rw [Option.some.inj h, ← Kind.upsertVal_some,
      Kind.upsertVal_upsertVal fun _ => Kind.meta_eq_of_fresh (hfresh w) (hfresh v) (hw.trans hv.symm)]

theorem GroupReach.eq_of_none {o : Option kg.Obj} (h : GroupReach kg group xs κ o none) : o = none := by
  rcases h with h | h
  · exact h.symm
  · cases o
    · rfl
    · simp [firstGroup] at h

end Reach

section Loops

variable {E : AlertService} {order : MapOrder} {currentVersion : String} {s : Store} {me : Bool}
variable {β : Type} {kr kg : Kind} {rule : β → kr.Obj} {group : β → kg.Obj} {xs pre : List β} {v : β}
  {st : Shared}

theorem filter_snoc_self (p : β → Key) (v : β) (ys : List β) :
    (ys ++ [v]).filter (fun x => p x = p v) = ys.filter (fun x => p x = p v) ++ [v] := by
  simp [List.filter_append]

theorem filter_snoc_of_ne (p : β → Key) {v : β} {κ : Key} (h : κ ≠ p v) (ys : List β) :
    (ys ++ [v]).filter (fun x => p x = κ) = ys.filter (fun x => p x = κ) := by
  simp [List.filter_append, Ne.symm h]

/-- After its own write of `v`'s rule, run `me` has migrated the rules of `pre ++ [v]`. -/
theorem RulesDone.write_rule {r : kr.Obj} (h : RulesDone kr rule me s pre st) (hkey : kr.key r = kr.key (rule v))
    (hval : r = kr.upsertVal ((s.tables kr).get (kr.key (rule v))) (rule v)) :
    RulesDone kr rule me s (pre ++ [v]) (st.write me kr r) := fun κ => by
  by_cases hκ : κ = kr.key (rule v)
  · subst hκ
    rw [filter_snoc_self]
    refine ⟨fun he => absurd he (by simp), fun _ => ?_⟩
    rw [Shared.write_get_self, Shared.write_writer_self, if_pos hkey.symm, if_pos hkey.symm]
    simp [lastRule, List.getLast?_concat, hval]
  · rw [filter_snoc_of_ne (fun x => kr.key (rule x)) hκ, Shared.write_get_self, Shared.write_writer_self,
      if_neg (hkey ▸ hκ),
      if_neg (hkey ▸ hκ)]
    exact h κ

/-- Where the create of `v`'s rule meets a rule the other run wrote, run `me` has migrated the rules of `pre ++ [v]`. -/
theorem RulesDone.snoc_taken (h : RulesDone kr rule me s pre st)
    (hs : ((st.store.tables kr).get (kr.key (rule v))).isSome) (hw : st.writer kr (kr.key (rule v)) ≠ none)
    (hnm : st.writer kr (kr.key (rule v)) ≠ some me) : RulesDone kr rule me s (pre ++ [v]) st := fun κ => by
  by_cases hκ : κ = kr.key (rule v)
  · subst hκ
    rw [filter_snoc_self]
    exact ⟨fun he => absurd he (by simp), fun _ => ⟨hs, hw, fun h' => absurd h' hnm⟩⟩
  · rw [filter_snoc_of_ne (fun x => kr.key (rule x)) hκ]
    exact h κ

variable (hfresh : ∀ x, kr.Fresh (rule x))
  (hkr : ∀ κ x, Allowed E order currentVersion s kr κ x ↔
    x = (s.tables kr).get κ ∨ Migrates E currentVersion s ∧ RuleReach kr rule xs κ ((s.tables kr).get κ) x)
  (hkg : ∀ κ x, Allowed E order currentVersion s kg κ x ↔
    x = (s.tables kg).get κ ∨ Migrates E currentVersion s ∧ GroupReach kg group xs κ ((s.tables kg).get κ) x)
  (hm : Migrates E currentVersion s)

include hkr in
theorem ruleReach_of_inv (h : Inv E order currentVersion s st) (κ : Key) :
    RuleReach kr rule xs κ ((s.tables kr).get κ) ((st.store.tables kr).get κ) := by
  rcases (hkr κ _).1 (h.allowed kr κ) with h' | ⟨-, h'⟩
  · exact .inl h'
  · exact h'

include hkg in
theorem groupReach_of_inv (h : Inv E order currentVersion s st) (κ : Key) :
    GroupReach kg group xs κ ((s.tables kg).get κ) ((st.store.tables kg).get κ) := by
  rcases (hkg κ _).1 (h.allowed kg κ) with h' | ⟨-, h'⟩
  · exact .inl h'
  · exact h'

include hfresh hkr hm in
/-- The rule step of an iteration, however the other run interleaves: it returns `nil`, and run `me` has migrated
one more rule. -/
theorem safe_migrateRule (hv : v ∈ xs) (m : ObjectMeta) {P : Shared → Prop}
    (hP : ∀ st st', P st → Changes (!me) st st' → P st') (hPw : ∀ st r, P st → P (st.write me kr r))
    (hinv : Inv E order currentVersion s st) (hd : RulesDone kr rule me s pre st) (hp : P st) :
    SafeRun E order currentVersion s me (migrateRule kr (rule v) m) (fun out st' => out = .returned none ∧
      Inv E order currentVersion s st' ∧ RulesDone kr rule me s (pre ++ [v]) st' ∧ P st') st := by
  simp only [migrateRule, lift_bind]
  refine safe_stay (fun _ => by exact ⟨rfl, rfl⟩) (P := fun st => RulesDone kr rule me s pre st ∧ P st)
    (fun _ _ h hc => ⟨h.1.rely hc, hP _ _ h.2 hc⟩) hinv ⟨hd, hp⟩ fun st₁ hinv₁ ⟨hd₁, hp₁⟩ => ?_
  cases hx : (st₁.store.tables kr).get (kr.key (rule v)) with
  | none =>
    have horig : (s.tables kr).get (kr.key (rule v)) = none :=
      RuleReach.eq_of_none (hx ▸ ruleReach_of_inv hkr hinv₁ (kr.key (rule v)))
    have hnm : st₁.writer kr (kr.key (rule v)) ≠ some me := by
      refine (hd₁ _).1 (List.filter_eq_nil_iff.2 fun w hw hk => ?_)
      have := ((hd₁ (kr.key (rule v))).2 (List.ne_nil_of_mem (List.mem_filter.2 ⟨hw, hk⟩))).1
      rw [hx] at this
      cases this
    simp only [Store.answer, Table.getE, hx, ApiError.notFound_isNotFound, Bool.not_true, Bool.false_eq_true,
      ite_false, lift_bind]
    refine safe_call.2 fun st₂ h₂ => ?_
    obtain ⟨hinv₂, hc₂⟩ := h₂ hinv₁
    cases hy : (st₂.store.tables kr).get (kr.key (rule v)) with
    | none =>
      have hA : Allowed E order currentVersion s kr (kr.key (rule v)) (some (rule v)) :=
        (hkr _ _).2 (.inr ⟨hm, .inr ⟨v, hv, rfl, by rw [horig, Kind.upsertVal_none]⟩⟩)
      rw [Shared.step_create_of_none hy, answer_create_of_none hy]
      refine ⟨guar_write hA, fun st₃ h₃ => ?_⟩
      obtain ⟨hinv₃, hc₃⟩ := h₃ (guar_write hA hinv₂).1
      exact ⟨rfl, hinv₃, ((hd₁.rely hc₂).write_rule rfl (by rw [horig, Kind.upsertVal_none])).rely hc₃,
        hP _ _ (hPw _ _ (hP _ _ hp₁ hc₂)) hc₃⟩
    | some y =>
      have hs : ((st₂.store.tables kr).get (kr.key (rule v))).isSome := by rw [hy]; rfl
      rw [Shared.step_create_of_isSome hs, answer_create_of_isSome hs]
      refine ⟨guar_refl me st₂, fun st₃ h₃ => ?_⟩
      obtain ⟨hinv₃, hc₃⟩ := h₃ hinv₂
      have hw : st₂.writer kr (kr.key (rule v)) ≠ none := fun hw => by
        have := hinv₂.unwritten kr _ hw
        rw [hy, horig] at this
        cases this
      have hnm₂ : st₂.writer kr (kr.key (rule v)) ≠ some me := fun h' =>
        hnm ((hc₂.eq_of_ne (h' ▸ ne_some_not me)).2 ▸ h')
      exact ⟨rfl, hinv₃, ((hd₁.rely hc₂).snoc_taken hs hw hnm₂).rely hc₃, hP _ _ (hP _ _ hp₁ hc₂) hc₃⟩
  | some x =>
    have hkx : kr.key x = kr.key (rule v) := (st₁.store.tables kr).get_key hx
    have hval : kr.withSpec x (rule v) = kr.upsertVal ((s.tables kr).get (kr.key (rule v))) (rule v) :=
      (hx ▸ ruleReach_of_inv hkr hinv₁ (kr.key (rule v))).withSpec_eq hfresh rfl
    simp only [Store.answer, Table.getE, hx, lift_bind]
    refine safe_call.2 fun st₂ h₂ => ?_
    obtain ⟨hinv₂, hc₂⟩ := h₂ hinv₁
    have hs : ((st₂.store.tables kr).get (kr.key (kr.withSpec x (rule v)))).isSome := by
      rw [Kind.key_withSpec, hkx]
      exact hc₂.kept _ _ (by rw [hx]; rfl)
    have hA : Allowed E order currentVersion s kr (kr.key (kr.withSpec x (rule v))) (some (kr.withSpec x (rule v))) := by
      rw [Kind.key_withSpec, hkx, hval]
      exact (hkr _ _).2 (.inr ⟨hm, .inr ⟨v, hv, rfl, rfl⟩⟩)
    rw [Shared.step_update_of_isSome hs, answer_update_of_isSome hs]
    refine ⟨guar_write hA, fun st₃ h₃ => ?_⟩
    obtain ⟨hinv₃, hc₃⟩ := h₃ (guar_write hA hinv₂).1
    exact ⟨rfl, hinv₃, ((hd₁.rely hc₂).write_rule (by rw [Kind.key_withSpec, hkx]) hval).rely hc₃,
      hP _ _ (hPw _ _ (hP _ _ hp₁ hc₂)) hc₃⟩

theorem GroupsDone.snoc (h : GroupsDone kg group pre st)
    (hv : ((st.store.tables kg).get (kg.key (group v))).isSome) : GroupsDone kg group (pre ++ [v]) st := by
  intro w hw
  rcases List.mem_append.1 hw with hw | hw
  · exact h w hw
  · rw [List.mem_singleton.1 hw]
    exact hv

include hkg hm in
/-- The group step of an iteration, however the other run interleaves: it returns `nil`, and the groups of
`pre ++ [v]` exist. -/
theorem safe_createGroup {rest : List β} (hxs : xs = pre ++ v :: rest)
    (h : Except ApiError kg.Obj → Prog (Option String))
    (hok : ∀ g, h (.ok g) = .pure none) (hae : ∀ res n, h (.error (.alreadyExists res n)) = .pure none)
    {P : Shared → Prop}
    (hP : ∀ st st', P st → Changes (!me) st st' → P st') (hPw : ∀ st g, P st → P (st.write me kg g))
    (hinv : Inv E order currentVersion s st) (hd : GroupsDone kg group pre st) (hp : P st) :
    SafeRun E order currentVersion s me (.call (.create kg (group v)) h) (fun out st' => out = .returned none ∧
      Inv E order currentVersion s st' ∧ GroupsDone kg group (pre ++ [v]) st' ∧ P st') st := by
  refine safe_call.2 fun st₁ h₁ => ?_
  obtain ⟨hinv₁, hc₁⟩ := h₁ hinv
  have hd₁ := hd.rely hc₁
  have hp₁ := hP _ _ hp hc₁
  cases hy : (st₁.store.tables kg).get (kg.key (group v)) with
  | none =>
    have horig := GroupReach.eq_of_none (hy ▸ groupReach_of_inv hkg hinv₁ (kg.key (group v)))
    have hpre : pre.filter (fun x => kg.key (group x) = kg.key (group v)) = [] :=
      List.filter_eq_nil_iff.2 fun w hw hk => by
        have := hd₁ w hw
        rw [of_decide_eq_true hk, hy] at this
        cases this
    have hA : Allowed E order currentVersion s kg (kg.key (group v)) (some (group v)) :=
      (hkg _ _).2 (.inr ⟨hm, .inr (by simp [firstGroup, horig, hxs, List.filter_append, hpre])⟩)
    rw [Shared.step_create_of_none hy, answer_create_of_none hy, hok]
    refine ⟨guar_write hA, fun st₂ h₂ => ?_⟩
    obtain ⟨hinv₂, hc₂⟩ := h₂ (guar_write hA hinv₁).1
    exact ⟨rfl, hinv₂, (hd₁.write.snoc (by simp [Shared.write_get_self])).rely hc₂,
      hP _ _ (hPw _ _ hp₁) hc₂⟩
  | some g =>
    have hs : ((st₁.store.tables kg).get (kg.key (group v))).isSome := by rw [hy]; rfl
    rw [Shared.step_create_of_isSome hs, answer_create_of_isSome hs, hae]
    refine ⟨guar_refl me st₁, fun st₂ h₂ => ?_⟩
    obtain ⟨hinv₂, hc₂⟩ := h₂ hinv₁
    exact ⟨rfl, hinv₂, (hd₁.snoc hs).rely hc₂, hP _ _ hp₁ hc₂⟩

include hfresh hkr hkg hm in
/-- A migration loop, however the other run interleaves: it returns `nil`, and run `me` has migrated every rule and
group of the list, with whatever `P` held before, if the loop's writes keep it. -/
theorem safe_alertLoop (hne : kr ≠ kg) {body : β → Prog (Option String)} {m : β → ObjectMeta}
    {h : β → Except ApiError kg.Obj → Prog (Option String)}
    (hbody : ∀ v, body v = (migrateRule kr (rule v) (m v) >>= fun o =>
      match o with
      | some err => Prog.pure (some err)
      | none => Prog.call (.create kg (group v)) (h v)))
    (hok : ∀ v g, h v (.ok g) = .pure none) (hae : ∀ v res n, h v (.error (.alreadyExists res n)) = .pure none)
    {P : Shared → Prop} (hP : ∀ st st', P st → Changes (!me) st st' → P st')
    (hPr : ∀ st r, P st → P (st.write me kr r)) (hPg : ∀ st g, P st → P (st.write me kg g))
    (hinv : Inv E order currentVersion s st) (hd : RulesDone kr rule me s [] st) (hp : P st) :
    SafeRun E order currentVersion s me (forEach body xs) (fun out st' => out = .returned none ∧
      Inv E order currentVersion s st' ∧ RulesDone kr rule me s xs st' ∧ GroupsDone kg group xs st' ∧
        P st') st := by
  refine safe_forEach (fun a => guar_refl (!me) a) (fun pre st => Inv E order currentVersion s st ∧
    RulesDone kr rule me s pre st ∧ GroupsDone kg group pre st ∧ P st) ?_ xs ?_ [] xs rfl st
    ⟨hinv, hd, fun _ h => absurd h (List.not_mem_nil _), hp⟩
  · rintro pre st st' ⟨hinv, hd, hg, hp⟩ h'
    obtain ⟨hinv', hc⟩ := h' hinv
    exact ⟨hinv', hd.rely hc, hg.rely hc, hP _ _ hp hc⟩
  · rintro pre v rest hxs st ⟨hinv, hd, hg, hp⟩
    have hv : v ∈ xs := hxs ▸ List.mem_append_right _ (List.mem_cons_self _ _)
    rw [hbody]
    refine Safe.bind (fun a => guar_refl (!me) a) ((safe_migrateRule hfresh hkr hm hv (m v)
      (P := fun st => GroupsDone kg group pre st ∧ P st) (fun _ _ h hc => ⟨h.1.rely hc, hP _ _ h.2 hc⟩)
      (fun _ _ h => ⟨h.1.write, hPr _ _ h.2⟩) hinv hd ⟨hg, hp⟩).mono ?_)
    rintro o st' ⟨rfl, hinv', hd', hg', hp'⟩
    exact (safe_createGroup hkg hm hxs (h v) (hok v) (hae v)
      (P := fun st => RulesDone kr rule me s (pre ++ [v]) st ∧ P st) (fun _ _ h hc => ⟨h.1.rely hc, hP _ _ h.2 hc⟩)
      (fun _ _ h => ⟨h.1.write_of_ne hne, hPg _ _ h.2⟩) hinv' hg' ⟨hd', hp'⟩).mono
      fun o st'' ⟨ho, hi, hg'', hd'', hp''⟩ => ⟨ho, hi, hd'', hg'', hp''⟩

end Loops

end AlertUpgrade
