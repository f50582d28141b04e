import AlertUpgrade.Store

/-!
# Programs that call the store

The Go functions are written in `Prog`, the free monad of store calls: a program has returned (`pure`), makes a call
and continues with the reply (`call`), or has panicked (`panic`). `Prog.run` runs a program against a store; the
`faults` list says, call by call, whether the call meets an unexpected failure (`some failure`) or is answered by
the store (`none`; an exhausted list answers every remaining call). A run records the calls it made.

`Prog.wp p Q s` says that every run of `p` from `s`, whatever failures it meets, ends in an outcome and a store
satisfying `Q`. Its rules (`wp_call`, `wp_bind`, `wp_mono`) are how the later modules reason about the code: each Go
function gets one `wp` lemma, and callers cite it.
-/

namespace AlertUpgrade

inductive Prog (α : Type) where
  | pure (a : α)
  | call (c : Call) (k : Except ApiError c.Ret → Prog α)
  | panic (msg : String)

/-- How a Go function ends: it returns, or the goroutine panics. -/
inductive Outcome (α : Type) where
  | returned (a : α)
  | panicked (msg : String)
  deriving DecidableEq, Repr

/-- The end of a run: its outcome, the store it leaves, the calls it made and the unused faults. -/
structure Run (α : Type) where
  outcome : Outcome α
  store : Store
  calls : List Call
  faults : List (Option Failure)

namespace Prog

variable {α β : Type}

def bind : Prog α → (α → Prog β) → Prog β
  | .pure a, f => f a
  | .call c k, f => .call c fun r => (k r).bind f
  | .panic m, _ => .panic m

instance : Monad Prog where
  pure := .pure
  bind := bind

/-- One store call, returning its reply. -/
def lift (c : Call) : Prog (Except ApiError c.Ret) := .call c .pure

@[simp] theorem pure_bind' (a : α) (f : α → Prog β) : (Prog.pure a >>= f) = f a := rfl

@[simp] theorem call_bind (c : Call) (k : Except ApiError c.Ret → Prog α) (f : α → Prog β) :
    (Prog.call c k >>= f) = .call c fun r => k r >>= f := rfl

@[simp] theorem panic_bind (m : String) (f : α → Prog β) : (Prog.panic m >>= f) = .panic m := rfl

@[simp] theorem lift_bind (c : Call) (f : Except ApiError c.Ret → Prog β) : (lift c >>= f) = .call c f := rfl

@[simp] theorem ret_eq_pure (a : α) : (Pure.pure a : Prog α) = Prog.pure a := rfl

def run : Prog α → List (Option Failure) → Store → Run α
  | .pure a, o, s => ⟨.returned a, s, [], o⟩
  | .panic m, o, s => ⟨.panicked m, s, [], o⟩
  | .call c k, o, s =>
    let x := (k (s.respond c (o.headD none)).1).run o.tail (s.respond c (o.headD none)).2
    { x with calls := c :: x.calls }

end Prog

/-- Continue a finished run with `f`. -/
def Run.andThen {α β : Type} (x : Run α) (f : α → Prog β) : Run β :=
  match x.outcome with
  | .returned a =>
    let y := (f a).run x.faults x.store
    { y with calls := x.calls ++ y.calls }
  | .panicked m => ⟨.panicked m, x.store, x.calls, x.faults⟩

namespace Prog

variable {α β : Type}

theorem run_bind (x : Prog α) (f : α → Prog β) (o : List (Option Failure)) (s : Store) :
    (x >>= f).run o s = (x.run o s).andThen f := by
  show (x.bind f).run o s = _
  induction x generalizing o s with
  | pure a => simp [Run.andThen, run, bind]
  | panic m => rfl
  | call c k ih =>
    simp only [bind, run, ih]
    unfold Run.andThen
    split <;> simp_all

theorem run_nil_faults (p : Prog α) (s : Store) : (p.run [] s).faults = [] := by
  induction p generalizing s with
  | pure a => rfl
  | panic m => rfl
  | call c k ih => exact ih _ _

/-! ## Every run -/

/-- Every run of `p` from `s`, whatever failures its calls meet, ends with an outcome, a store and a list of calls
satisfying `Q`. -/
def wp (p : Prog α) (Q : Outcome α → Store → List Call → Prop) (s : Store) : Prop :=
  ∀ o, Q (p.run o s).outcome (p.run o s).store (p.run o s).calls

section Wp

variable {Q Q' : Outcome α → Store → List Call → Prop} {s : Store}

@[simp] theorem wp_pure (a : α) : wp (.pure a) Q s ↔ Q (.returned a) s [] := ⟨fun h => h [], fun h _ => h⟩

@[simp] theorem wp_panic (m : String) : wp (.panic m) Q s ↔ Q (.panicked m) s [] := ⟨fun h => h [], fun h _ => h⟩

theorem wp_call (c : Call) (k : Except ApiError c.Ret → Prog α) :
    wp (.call c k) Q s ↔ ∀ f, wp (k (s.respond c f).1) (fun out s' cs => Q out s' (c :: cs)) (s.respond c f).2 :=
  ⟨fun h f o => h (f :: o), fun h o => h (o.headD none) o.tail⟩

/-- A call either meets an unexpected failure, which writes nothing, or is answered by the store. -/
theorem wp_call_iff (c : Call) (k : Except ApiError c.Ret → Prog α) :
    wp (.call c k) Q s ↔
      (∀ m, wp (k (.error (.unexpected m))) (fun out s' cs => Q out s' (c :: cs)) s) ∧
        wp (k (s.answer c).1) (fun out s' cs => Q out s' (c :: cs)) (s.answer c).2 := by
  rw [wp_call]
  exact ⟨fun h => ⟨fun m => h (some m), h none⟩, fun h f => by cases f <;> simp_all [Store.respond]⟩

theorem wp_mono {p : Prog α} (h : wp p Q s) (hQ : ∀ out s' cs, Q out s' cs → Q' out s' cs) : wp p Q' s :=
  fun o => hQ _ _ _ (h o)

theorem wp_and {p : Prog α} (h : wp p Q s) (h' : wp p Q' s) :
    wp p (fun out s' cs => Q out s' cs ∧ Q' out s' cs) s :=
  fun o => ⟨h o, h' o⟩

/-- What `x` must end in for `x >>= f` to end in `Q`. -/
def bindPost (f : α → Prog β) (Q : Outcome β → Store → List Call → Prop) : Outcome α → Store → List Call → Prop
  | .returned a, s, cs => wp (f a) (fun out s' cs' => Q out s' (cs ++ cs')) s
  | .panicked m, s, cs => Q (.panicked m) s cs

theorem wp_bind {x : Prog α} {f : α → Prog β} {Q : Outcome β → Store → List Call → Prop}
    (h : wp x (bindPost f Q) s) : wp (x >>= f) Q s := by
  intro o
  rw [run_bind]
  have hx := h o
  unfold Run.andThen
  split
  · next a ha => rw [ha] at hx; exact hx _
  · next m hm => rw [hm] at hx; exact hx

end Wp

/-! ## The run without unexpected failures -/

/-- The run in which every call is answered by the store. -/
def exec (p : Prog α) (s : Store) : Outcome α × Store := ((p.run [] s).outcome, (p.run [] s).store)

@[simp] theorem exec_pure (a : α) (s : Store) : (Prog.pure a).exec s = (.returned a, s) := rfl

@[simp] theorem exec_panic (m : String) (s : Store) : (Prog.panic m : Prog α).exec s = (.panicked m, s) := rfl

@[simp] theorem exec_call (c : Call) (k : Except ApiError c.Ret → Prog α) (s : Store) :
    (Prog.call c k).exec s = (k (s.answer c).1).exec (s.answer c).2 := rfl

theorem exec_bind (x : Prog α) (f : α → Prog β) (s : Store) :
    (x >>= f).exec s = match x.exec s with
      | (.returned a, s') => (f a).exec s'
      | (.panicked m, s') => (.panicked m, s') := by
  simp only [exec, run_bind, Run.andThen]
  split <;> simp_all [run_nil_faults]

/-! ## Monad laws -/

theorem bind_assoc (x : Prog α) (f : α → Prog β) {γ : Type} (g : β → Prog γ) :
    (x >>= f >>= g) = x >>= fun a => f a >>= g := by
  show (x.bind f).bind g = x.bind fun a => (f a).bind g
  induction x with
  | pure a => rfl
  | panic m => rfl
  | call c k ih => simp only [bind, ih]

theorem bind_pure (x : Prog α) : (x >>= Prog.pure) = x := by
  show x.bind Prog.pure = x
  induction x with
  | pure a => rfl
  | panic m => rfl
  | call c k ih => simp only [bind, ih]

/-! ## The calls a program can make -/

/-- Every call the program can make, whatever the replies, satisfies `P`. -/
def AllCalls (P : Call → Prop) : Prog α → Prop
  | .pure _ | .panic _ => True
  | .call c k => P c ∧ ∀ r, AllCalls P (k r)

theorem allCalls_bind {P : Call → Prop} {x : Prog α} {f : α → Prog β} (hx : AllCalls P x)
    (hf : ∀ a, AllCalls P (f a)) : AllCalls P (x >>= f) := by
  show AllCalls P (x.bind f)
  induction x with
  | pure a => exact hf a
  | panic m => trivial
  | call c k ih => exact ⟨hx.1, fun r => ih r (hx.2 r)⟩

theorem mem_run_calls {P : Call → Prop} {p : Prog α} (hp : AllCalls P p) (o : List (Option Failure)) (s : Store)
    {c : Call} (hc : c ∈ (p.run o s).calls) : P c := by
  induction p generalizing o s with
  | pure a => cases hc
  | panic m => cases hc
  | call c' k ih =>
    rcases List.mem_cons.mp hc with rfl | hc
    · exact hp.1
    · exact ih _ (hp.2 _) _ _ hc

end Prog

end AlertUpgrade
