import AlertUpgrade.Upgrade

/-!
# Two runs on one store

Two programs run against one store, call by call (`interleave`): the schedule says which of them makes the next
call, and a program that has ended lets the other go on. Each call is atomic: the store answers it as `Store.answer`
does, and no call fails unexpectedly.

To reason about such runs each side proves `Safe R G`: whatever the other side does between its calls, as long as
that stays within the rely `R`, each of its own calls stays within the guarantee `G`, and it ends in its
postcondition. When each side's guarantee is within the other's rely, both postconditions hold at the end of every
schedule (`safe_interleaveG`): the rely-guarantee rule for parallel composition.

The state the rule works on carries, besides the store, a ghost tag per record: the side that wrote it last
(`Shared.writer`). The tags change nothing the programs do (`interleaveG_eq`); they let a side say what it knows of
the records it wrote itself.
-/

namespace AlertUpgrade

/-- The store two runs share, and for each record which run (`true` the first) wrote it last. -/
structure Shared where
  store : Store
  writer : Kind → Key → Option Bool

/-- The record a call writes in the store `σ`, when the store takes the write. -/
def Call.writes (σ : Store) : Call → Option (Kind × Key)
  | .create k r => if ((σ.tables k).get (k.key r)).isNone then some (k, k.key r) else none
  | .update k r => if ((σ.tables k).get (k.key r)).isSome then some (k, k.key r) else none
  | _ => none

/-- The shared state after run `me` makes the call `c`. -/
def Shared.step (me : Bool) (st : Shared) (c : Call) : Shared where
  store := (st.store.answer c).2
  writer k κ := if c.writes st.store = some (k, κ) then some me else st.writer k κ

namespace Prog

variable {α : Type}

/-- How a program that has ended ended. -/
def result : Prog α → Option (Outcome α)
  | .pure a => some (.returned a)
  | .panic m => some (.panicked m)
  | .call _ _ => none

/-- The program after its next call, answered by the store, and the store after it; an ended program stays. -/
def advance : Prog α → Store → Prog α × Store
  | .call c k, σ => (k (σ.answer c).1, (σ.answer c).2)
  | p, σ => (p, σ)

/-- `advance` for run `me`, with the ghost tags. -/
def advanceShared (me : Bool) : Prog α → Shared → Prog α × Shared
  | .call c k, st => (k (st.store.answer c).1, st.step me c)
  | p, st => (p, st)

end Prog

/-- Two programs interleaved on one store: `true` in the schedule lets the first make its next call, `false` the
second. -/
def interleave {α : Type} (p q : Prog α) (σ : Store) : List Bool → Prog α × Prog α × Store
  | [] => (p, q, σ)
  | true :: sched => interleave (p.advance σ).1 q (p.advance σ).2 sched
  | false :: sched => interleave p (q.advance σ).1 (q.advance σ).2 sched

/-- `interleave` with the ghost tags. -/
def interleaveG {α : Type} (p q : Prog α) (st : Shared) : List Bool → Prog α × Prog α × Shared
  | [] => (p, q, st)
  | true :: sched => interleaveG (p.advanceShared true st).1 q (p.advanceShared true st).2 sched
  | false :: sched => interleaveG p (q.advanceShared false st).1 (q.advanceShared false st).2 sched

theorem advanceShared_eq {α : Type} (me : Bool) (p : Prog α) (st : Shared) :
    ((p.advanceShared me st).1, (p.advanceShared me st).2.store) = p.advance st.store := by
  cases p <;> rfl

/-- The ghost tags do not change the runs. -/
theorem interleaveG_eq {α : Type} (sched : List Bool) (p q : Prog α) (st : Shared) :
    ((interleaveG p q st sched).1, (interleaveG p q st sched).2.1, (interleaveG p q st sched).2.2.store) =
      interleave p q st.store sched := by
  induction sched generalizing p q st with
  | nil => rfl
  | cons b sched ih =>
    cases b with
    | true =>
      have h := advanceShared_eq true p st
      simp only [interleaveG, interleave, ih, ← h]
    | false =>
      have h := advanceShared_eq false q st
      simp only [interleaveG, interleave, ih, ← h]

/-! ## Rely and guarantee -/

section Safe

variable {α β : Type} (R G : Shared → Shared → Prop) (me : Bool)

/-- Run by side `me`, from `st` on, whatever the other side does within `R` before each call and at the end, every
call of `p` is within `G` and `p` ends in `Q`. -/
def Safe : Prog α → (Outcome α → Shared → Prop) → Shared → Prop
  | .pure a, Q, st => ∀ st', R st st' → Q (.returned a) st'
  | .panic m, Q, st => ∀ st', R st st' → Q (.panicked m) st'
  | .call c k, Q, st => ∀ st', R st st' → G st' (st'.step me c) ∧ Safe (k (st'.store.answer c).1) Q (st'.step me c)

/-- What `x` must end in for `x >>= f` to end in `Q`. -/
def SafePost (f : α → Prog β) (Q : Outcome β → Shared → Prop) : Outcome α → Shared → Prop
  | .returned a, st => Safe R G me (f a) Q st
  | .panicked m, st => Q (.panicked m) st

variable {R G me} {Q Q' : Outcome α → Shared → Prop}

theorem Safe.rely (htrans : ∀ a b c, R a b → R b c → R a c) {p : Prog α} {st st' : Shared}
    (h : Safe R G me p Q st) (hr : R st st') : Safe R G me p Q st' := by
  cases p with
  | pure a => exact fun st'' h' => h st'' (htrans _ _ _ hr h')
  | panic m => exact fun st'' h' => h st'' (htrans _ _ _ hr h')
  | call c k => exact fun st'' h' => h st'' (htrans _ _ _ hr h')

theorem Safe.mono {p : Prog α} {st : Shared} (h : Safe R G me p Q st) (hQ : ∀ o st, Q o st → Q' o st) :
    Safe R G me p Q' st := by
  induction p generalizing st with
  | pure a => exact fun st' h' => hQ _ _ (h st' h')
  | panic m => exact fun st' h' => hQ _ _ (h st' h')
  | call c k ih => exact fun st' h' => ⟨(h st' h').1, ih _ (h st' h').2⟩

theorem Safe.bind (hrefl : ∀ a, R a a) {x : Prog α} {f : α → Prog β} {Q : Outcome β → Shared → Prop}
    {st : Shared}
    (h : Safe R G me x (SafePost R G me f Q) st) : Safe R G me (x >>= f) Q st := by
  show Safe R G me (x.bind f) Q st
  induction x generalizing st with
  | pure a => exact h st (hrefl st)
  | panic m => exact h
  | call c k ih => exact fun st' h' => ⟨(h st' h').1, ih _ (h st' h').2⟩

theorem safe_pure {a : α} {st : Shared} : Safe R G me (.pure a) Q st ↔ ∀ st', R st st' → Q (.returned a) st' :=
  Iff.rfl

theorem safe_call {c : Call} {k : Except ApiError c.Ret → Prog α} {st : Shared} :
    Safe R G me (.call c k) Q st ↔
      ∀ st', R st st' → G st' (st'.step me c) ∧ Safe R G me (k (st'.store.answer c).1) Q (st'.step me c) :=
  Iff.rfl

/-- A loop keeps an invariant, stable under the rely, that each iteration carries one element further. -/
theorem safe_forEach (hrefl : ∀ a, R a a) {body : β → Prog (Option String)} (I : List β → Shared → Prop)
    (hI : ∀ pre st st', I pre st → R st st' → I pre st') (xs : List β)
    (hbody : ∀ pre v rest, xs = pre ++ v :: rest → ∀ st, I pre st →
      Safe R G me (body v) (fun out st' => out = .returned none ∧ I (pre ++ [v]) st') st) :
    ∀ pre rest, xs = pre ++ rest → ∀ st, I pre st →
      Safe R G me (forEach body rest) (fun out st' => out = .returned none ∧ I xs st') st := by
  intro pre rest
  induction rest generalizing pre with
  | nil =>
    intro hxs st hst st' h'
    rw [List.append_nil] at hxs
    exact ⟨rfl, hxs ▸ hI _ _ _ hst h'⟩
  | cons v rest ih =>
    intro hxs st hst
    refine Safe.bind hrefl ((hbody pre v rest hxs st hst).mono ?_)
    rintro o st' ⟨rfl, h'⟩
    exact ih (pre ++ [v]) (by simp [hxs]) st' h'

end Safe

/-- Two sides whose guarantees are within each other's rely stay `Safe` along every schedule. -/
theorem safe_interleaveG {α : Type} {R₁ G₁ R₂ G₂ : Shared → Shared → Prop}
    {Q₁ Q₂ : Outcome α → Shared → Prop} (hrefl₁ : ∀ a, R₁ a a) (hrefl₂ : ∀ a, R₂ a a)
    (htrans₁ : ∀ a b c, R₁ a b → R₁ b c → R₁ a c) (htrans₂ : ∀ a b c, R₂ a b → R₂ b c → R₂ a c)
    (h₁₂ : ∀ a b, G₁ a b → R₂ a b) (h₂₁ : ∀ a b, G₂ a b → R₁ a b)
    (sched : List Bool) :
    ∀ (p q : Prog α) (st : Shared), Safe R₁ G₁ true p Q₁ st → Safe R₂ G₂ false q Q₂ st →
      Safe R₁ G₁ true (interleaveG p q st sched).1 Q₁ (interleaveG p q st sched).2.2 ∧
        Safe R₂ G₂ false (interleaveG p q st sched).2.1 Q₂ (interleaveG p q st sched).2.2 := by
  induction sched with
  | nil => exact fun _ _ _ hp hq => ⟨hp, hq⟩
  | cons b sched ih =>
    intro p q st hp hq
    cases b with
    | true =>
      cases p with
      | call c k =>
        obtain ⟨hg, hk⟩ := hp st (hrefl₁ st)
        exact ih _ _ _ hk (hq.rely htrans₂ (h₁₂ _ _ hg))
      | pure a => exact ih _ _ _ hp hq
      | panic m => exact ih _ _ _ hp hq
    | false =>
      cases q with
      | call c k =>
        obtain ⟨hg, hk⟩ := hq st (hrefl₂ st)
        exact ih _ _ _ (hp.rely htrans₁ (h₂₁ _ _ hg)) hk
      | pure a => exact ih _ _ _ hp hq
      | panic m => exact ih _ _ _ hp hq

/-- A side that has ended is in its postcondition. -/
theorem Safe.result {α : Type} {R G : Shared → Shared → Prop} {me : Bool} {Q : Outcome α → Shared → Prop}
    (hrefl : ∀ a, R a a) {p : Prog α} {st : Shared} {o : Outcome α} (h : Safe R G me p Q st)
    (hp : p.result = some o) :
    Q o st := by
  cases p with
  | pure a => cases hp; exact h st (hrefl st)
  | panic m => cases hp; exact h st (hrefl st)
  | call c k => cases hp

end AlertUpgrade
