import AlertUpgrade.Interleave

/-!
# Any number of runs on one store, with failing calls

Runs of a program share one store (`Runs`). A schedule is a list of moves: a run makes its next call, or a new run
starts. Each call is atomic, and the store meets it in one of three ways (`Reply`): it answers the call; the call
fails before it reaches the store; or the call takes effect and its reply is lost, so that the run sees an
unexpected error although the write was made (a timeout after the write). `interleave` is the case of two runs
whose calls are all answered (`moves_interleave`).

`Sound R G Q p σ` says that the run `p`, resumed at the store `σ`, makes `G`-steps that keep `R` at each of its calls,
whatever the other runs do in between as long as they make `G`-steps that keep `R` (`Rely`) and however its calls
are met, and that it ends in `Q`. When `R` holds and every run is `Sound`, both stay true along every schedule
(`Runs.Sound.moves`): the step lemma `Runs.Sound.move` is the rely-guarantee rule for one move, and a run that has
ended satisfies its postcondition at every later store.
-/

namespace AlertUpgrade

/-- How the store meets a call. -/
inductive Reply where
  /-- The store answers the call. -/
  | answered
  /-- The call fails with an unexpected error before it reaches the store. -/
  | failed (m : Failure)
  /-- The call takes effect and its reply is lost: the run sees an unexpected error. -/
  | lost (m : Failure)

namespace Prog

variable {α : Type}

/-- The next call of `p` met at `σ` as the reply says: the rest of the run and the store after. A run that has ended
does not move. -/
def meet (σ : Store) : Prog α → Reply → Prog α × Store
  | .call c k, .answered => (k (σ.answer c).1, (σ.answer c).2)
  | .call _ k, .failed m => (k (.error (.unexpected m)), σ)
  | .call c k, .lost m => (k (.error (.unexpected m)), (σ.answer c).2)
  | p, _ => (p, σ)

theorem meet_answered (p : Prog α) (σ : Store) : p.meet σ .answered = p.advance σ := by
  cases p <;> rfl

end Prog

/-- Runs sharing a store. -/
structure Runs (α : Type) where
  store : Store
  runs : List (Prog α)

/-- A move of a schedule: run `i` makes its next call, met as the reply says; or a new run starts with `x`. -/
inductive Move (ι : Type) where
  | call (i : Nat) (reply : Reply)
  | start (x : ι)

namespace Runs

variable {α ι : Type} (spawn : ι → Prog α)

/-- One move; `spawn x` is the run that a start with `x` adds. A move of a run that does not exist does nothing. -/
def move (S : Runs α) : Move ι → Runs α
  | .call i reply =>
    match S.runs[i]? with
    | some p => ⟨(p.meet S.store reply).2, S.runs.set i (p.meet S.store reply).1⟩
    | none => S
  | .start x => ⟨S.store, S.runs ++ [spawn x]⟩

/-- The moves of a schedule, one after the other. -/
def moves (S : Runs α) (sched : List (Move ι)) : Runs α := sched.foldl (move spawn) S

@[simp] theorem moves_nil (S : Runs α) : S.moves spawn [] = S := rfl

@[simp] theorem moves_cons (S : Runs α) (m : Move ι) (sched : List (Move ι)) :
    S.moves spawn (m :: sched) = (S.move spawn m).moves spawn sched := rfl

theorem moves_append (S : Runs α) (sched sched' : List (Move ι)) :
    S.moves spawn (sched ++ sched') = (S.moves spawn sched).moves spawn sched' :=
  List.foldl_append _ _ _ _

/-- Two runs whose calls are all answered, scheduled by `true` for the first and `false` for the second, are
`interleave`. -/
theorem moves_interleave (p q : Prog α) (σ : Store) (sched : List Bool) :
    (Runs.mk σ [p, q]).moves spawn (sched.map fun b => .call (if b then 0 else 1) .answered) =
      ⟨(interleave p q σ sched).2.2, [(interleave p q σ sched).1, (interleave p q σ sched).2.1]⟩ := by
  induction sched generalizing p q σ with
  | nil => rfl
  | cons b sched ih =>
    cases b
    · simp only [List.map_cons, moves_cons, if_false, interleave, ← ih, ← Prog.meet_answered]
      rfl
    · simp only [List.map_cons, moves_cons, if_true, interleave, ← ih, ← Prog.meet_answered]
      rfl

end Runs

/-! ## Runs that keep an invariant -/

section Sound

variable {α : Type} (R : Store → Prop) (G : Store → Store → Prop) (Q : Outcome α → Store → Prop)

/-- What the other runs may do between two calls of a run: `G`-steps that keep `R`. -/
def Rely : Store → Store → Prop := Relation.ReflTransGen fun σ σ' => G σ σ' ∧ R σ'

/-- The run `p`, resumed at `σ`: at each of its calls, made at any store the other runs reach from `σ`, the store's
answer and the write of a call whose reply is lost are `G`-steps that keep `R`, and the run goes on soundly however
the call is met; where it ends, `Q` holds of its outcome and the store. -/
def Sound : Prog α → Store → Prop
  | .pure a, σ => Q (.returned a) σ
  | .panic m, σ => Q (.panicked m) σ
  | .call c k, σ => ∀ σ', Rely R G σ σ' → R σ' →
      (G σ' (σ'.answer c).2 ∧ R (σ'.answer c).2 ∧ Sound (k (σ'.answer c).1) (σ'.answer c).2) ∧
        ∀ m, Sound (k (.error (.unexpected m))) σ' ∧ Sound (k (.error (.unexpected m))) (σ'.answer c).2

variable {R G Q}

theorem Rely.single {σ σ' : Store} (hg : G σ σ') (hr : R σ') : Rely R G σ σ' := .single ⟨hg, hr⟩

/-- A fact that every `G`-step keeping `R` keeps survives what the other runs do. -/
theorem Rely.keep {P : Store → Prop} (hP : ∀ σ σ', P σ → G σ σ' → R σ' → P σ') {σ σ' : Store}
    (hr : Rely R G σ σ') (hp : P σ) : P σ' :=
  Relation.ReflTransGen.rec (motive := fun σ' _ => P σ') hp (fun _ h ih => hP _ _ ih h.1 h.2) hr

/-- A sound run stays sound while the others move, when its postcondition is stable. -/
theorem Sound.rely (hQ : ∀ o σ σ', Q o σ → Rely R G σ σ' → Q o σ') {p : Prog α} {σ σ' : Store}
    (h : Sound R G Q p σ) (hr : Rely R G σ σ') : Sound R G Q p σ' := by
  cases p with
  | pure a => exact hQ _ _ _ h hr
  | panic m => exact hQ _ _ _ h hr
  | call c k => exact fun σ'' hr' => h σ'' (hr.trans hr')

theorem Sound.mono {Q' : Outcome α → Store → Prop} (hQ : ∀ o σ, Q o σ → Q' o σ) :
    ∀ {p : Prog α} {σ : Store}, Sound R G Q p σ → Sound R G Q' p σ
  | .pure _, _, h | .panic _, _, h => hQ _ _ h
  | .call _ _, _, h => fun σ' hr hR =>
    ⟨⟨(h σ' hr hR).1.1, (h σ' hr hR).1.2.1, (h σ' hr hR).1.2.2.mono hQ⟩,
      fun m => ⟨((h σ' hr hR).2 m).1.mono hQ, ((h σ' hr hR).2 m).2.mono hQ⟩⟩

/-- What `x` must end in for `x >>= f` to be sound with postcondition `Q`. -/
def soundPost {β : Type} (f : β → Prog α) : Outcome β → Store → Prop
  | .returned b, σ => Sound R G Q (f b) σ
  | .panicked m, σ => Q (.panicked m) σ

theorem Sound.bind {β : Type} {f : β → Prog α} :
    ∀ {x : Prog β} {σ : Store}, Sound R G (soundPost (R := R) (G := G) (Q := Q) f) x σ → Sound R G Q (x >>= f) σ
  | .pure _, _, h | .panic _, _, h => h
  | .call _ _, _, h => fun σ' hr hR =>
    ⟨⟨(h σ' hr hR).1.1, (h σ' hr hR).1.2.1, Sound.bind (h σ' hr hR).1.2.2⟩,
      fun m => ⟨Sound.bind ((h σ' hr hR).2 m).1, Sound.bind ((h σ' hr hR).2 m).2⟩⟩

/-- A fact that every `G`-step keeping `R` keeps holds where a sound run ends. -/
theorem Sound.frame {P : Store → Prop} (hP : ∀ σ σ', P σ → G σ σ' → R σ' → P σ') :
    ∀ {p : Prog α} {σ : Store}, Sound R G Q p σ → P σ → Sound R G (fun o σ => Q o σ ∧ P σ) p σ
  | .pure _, _, h, hp | .panic _, _, h, hp => ⟨h, hp⟩
  | .call _ _, _, h, hp => fun σ' hr hR => by
    have hp' : P σ' := hr.keep hP hp
    obtain ⟨⟨hg, hR', hk⟩, hm⟩ := h σ' hr hR
    exact ⟨⟨hg, hR', hk.frame hP (hP _ _ hp' hg hR')⟩,
      fun m => ⟨(hm m).1.frame hP hp', (hm m).2.frame hP (hP _ _ hp' hg hR')⟩⟩

/-- A call that leaves the store as it is: the run goes on at the store the call met, with the answer or an error. -/
theorem sound_read (hG : ∀ σ, G σ σ) {c : Call} {k : Except ApiError c.Ret → Prog α} {σ : Store}
    (hc : ∀ σ : Store, (σ.answer c).2 = σ)
    (h : ∀ σ', Rely R G σ σ' → R σ' →
      Sound R G Q (k (σ'.answer c).1) σ' ∧ ∀ m, Sound R G Q (k (.error (.unexpected m))) σ') :
    Sound R G Q (.call c k) σ := fun σ' hr hR => by
  rw [hc σ']
  exact ⟨⟨hG σ', hR, (h σ' hr hR).1⟩, fun m => ⟨(h σ' hr hR).2 m, (h σ' hr hR).2 m⟩⟩

end Sound

/-! ## Every schedule -/

namespace Runs

section Moves

variable {α ι : Type} {R : Store → Prop} {G : Store → Store → Prop} {Q : Outcome α → Store → Prop}

variable (R G Q) in
/-- The store satisfies `R`, and every run is sound at it. -/
structure Sound (S : Runs α) : Prop where
  store : R S.store
  runs : ∀ p ∈ S.runs, AlertUpgrade.Sound R G Q p S.store

variable {spawn : ι → Prog α} (hQ : ∀ o σ σ', Q o σ → Rely R G σ σ' → Q o σ')
  (hspawn : ∀ x σ, R σ → AlertUpgrade.Sound R G Q (spawn x) σ)

/-- A call met at a store satisfying `R` by a sound run: the store after is reached by a `G`-step keeping `R`, or is
the same, and the run goes on soundly there. -/
theorem sound_meet {p : Prog α} {σ : Store} (hR : R σ) (h : AlertUpgrade.Sound R G Q p σ) (reply : Reply) :
    Rely R G σ (p.meet σ reply).2 ∧ R (p.meet σ reply).2 ∧
      AlertUpgrade.Sound R G Q (p.meet σ reply).1 (p.meet σ reply).2 := by
  cases p with
  | pure a => exact ⟨.refl, hR, h⟩
  | panic m => exact ⟨.refl, hR, h⟩
  | call c k =>
    obtain ⟨⟨hg, hR', hk⟩, hm⟩ := h σ .refl hR
    cases reply with
    | answered => exact ⟨Rely.single hg hR', hR', hk⟩
    | failed m => exact ⟨.refl, hR, (hm m).1⟩
    | lost m => exact ⟨Rely.single hg hR', hR', (hm m).2⟩

include hQ hspawn in
/-- The step lemma: one move keeps `R` and the soundness of every run. -/
theorem Sound.move {S : Runs α} (h : S.Sound R G Q) (m : Move ι) : (S.move spawn m).Sound R G Q := by
  cases m with
  | call i reply =>
    cases hp : S.runs[i]? with
    | none => simpa only [Runs.move, hp] using h
    | some p =>
      obtain ⟨hr, hR, hk⟩ := sound_meet h.store (h.runs p (List.getElem?_mem hp)) reply
      refine ⟨by simpa only [Runs.move, hp] using hR, fun q hq => ?_⟩
      simp only [Runs.move, hp] at hq ⊢
      rcases List.mem_or_eq_of_mem_set hq with hq | rfl
      · exact (h.runs q hq).rely hQ hr
      · exact hk
  | start x =>
    refine ⟨h.store, fun q hq => ?_⟩
    rcases List.mem_append.1 hq with hq | hq
    · exact h.runs q hq
    · exact List.mem_singleton.1 hq ▸ hspawn x _ h.store

include hQ hspawn in
/-- The run lemma: every schedule keeps `R` and the soundness of every run. -/
theorem Sound.moves {S : Runs α} (h : S.Sound R G Q) (sched : List (Move ι)) : (S.moves spawn sched).Sound R G Q := by
  induction sched generalizing S with
  | nil => exact h
  | cons m sched ih => exact ih (h.move hQ hspawn m)

/-- The store moves by `G`-steps that keep `R`. -/
theorem Sound.rely_move {S : Runs α} (h : S.Sound R G Q) (m : Move ι) : Rely R G S.store (S.move spawn m).store := by
  cases m with
  | call i reply =>
    cases hp : S.runs[i]? with
    | none => simpa only [Runs.move, hp] using Relation.ReflTransGen.refl
    | some p => simpa only [Runs.move, hp] using (sound_meet h.store (h.runs p (List.getElem?_mem hp)) reply).1
  | start x => exact .refl

include hQ hspawn in
theorem Sound.rely_moves {S : Runs α} (h : S.Sound R G Q) (sched : List (Move ι)) :
    Rely R G S.store (S.moves spawn sched).store := by
  induction sched generalizing S with
  | nil => exact .refl
  | cons m sched ih => exact (h.rely_move m).trans (ih (h.move hQ hspawn m))

/-- A run that has returned stays returned, whatever moves follow. -/
theorem move_returned {S : Runs α} {i : Nat} {a : α} (h : S.runs[i]? = some (.pure a)) (m : Move ι) :
    (S.move spawn m).runs[i]? = some (.pure a) := by
  have hi : i < S.runs.length := (List.getElem?_eq_some_iff.1 h).1
  cases m with
  | call j reply =>
    simp only [move]
    split
    · next p hp =>
      by_cases hij : j = i
      · subst hij
        rw [h, Option.some.injEq] at hp
        subst hp
        exact List.getElem?_set_self hi
      · rw [List.getElem?_set_ne hij]
        exact h
    · exact h
  | start x => exact (List.getElem?_append_left hi).trans h

theorem moves_returned {S : Runs α} {i : Nat} {a : α} (h : S.runs[i]? = some (.pure a)) (sched : List (Move ι)) :
    (S.moves spawn sched).runs[i]? = some (.pure a) := by
  induction sched generalizing S with
  | nil => exact h
  | cons m sched ih => exact ih (move_returned h m)

/-- A run that has returned satisfies its postcondition at the current store. -/
theorem Sound.returned {S : Runs α} (h : S.Sound R G Q) {i : Nat} {a : α} (hi : S.runs[i]? = some (.pure a)) :
    Q (.returned a) S.store :=
  h.runs _ (List.getElem?_mem hi)

end Moves

end Runs

end AlertUpgrade
