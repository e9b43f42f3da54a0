import SparqlBind.Extension.Context

/-!
# Ends of evaluations

An evaluation may read the clock, and it ends with a value or an error for every sequence of
readings. `Yields` collects the values over all readings; a settled evaluation reads no clock at
all. `Agrees` compares an evaluation that is settled with a partial value: both have a result, and
the results are related, or neither has one. `Reaches` says how an evaluation ends that may run out
of time.
-/

namespace SparqlBind

namespace Timed

variable {α β : Type}

/-- A computation ends with `a` when the clock gives some readings. -/
inductive Ends : Timed α → α → Prop
  | done (a : α) : Ends (.done a) a
  | read (now : Instant) {next : Instant → Timed α} {a : α} : Ends (next now) a → Ends (.read next) a

theorem ends_runFrom (clock : Nat → Instant) (n : Nat) (t : Timed α) :
    Ends t (runFrom clock n t) := by
  induction t generalizing n with
  | done a => exact .done a
  | read next ih => exact .read (clock n) (ih (clock n) (n + 1))

/-- The readings of the past do not matter. -/
theorem runFrom_congr {first second : Nat → Instant} (t : Timed α) :
    ∀ {n m : Nat}, (∀ k, first (n + k) = second (m + k)) → runFrom first n t = runFrom second m t := by
  induction t with
  | done a => intros; rfl
  | read next ih =>
    intro n m h
    have h0 : first n = second m := by simpa using h 0
    simp only [runFrom, h0]
    refine ih _ fun k => ?_
    have hk := h (k + 1)
    rwa [Nat.add_comm k 1, ← Nat.add_assoc, ← Nat.add_assoc] at hk

/-- An end is the result of a run: the readings on the way to it make a clock. -/
theorem ends_iff_run (t : Timed α) (a : α) : Ends t a ↔ ∃ clock, t.run clock = a := by
  constructor
  · intro h
    induction h with
    | done a => exact ⟨fun _ => default, rfl⟩
    | @read now next a _ ih =>
      obtain ⟨clock, h⟩ := ih
      let later : Nat → Instant := fun n => if n = 0 then now else clock (n - 1)
      refine ⟨later, ?_⟩
      have hnext : runFrom later 1 (next now) = runFrom clock 0 (next now) :=
        runFrom_congr _ fun k => by simp [later, Nat.add_comm 1 k]
      exact hnext.trans h
  · rintro ⟨clock, rfl⟩
    exact ends_runFrom clock 0 t

theorem ends_done_iff {a b : α} : Ends (.done a) b ↔ a = b := by
  constructor
  · intro h
    cases h
    rfl
  · rintro rfl
    exact .done a

theorem ends_bind_iff {t : Timed α} {f : α → Timed β} {b : β} :
    Ends (t.bind f) b ↔ ∃ a, Ends t a ∧ Ends (f a) b := by
  induction t with
  | done a => simp [bind, ends_done_iff]
  | read next ih =>
    constructor
    · intro h
      cases h with
      | read now h =>
        obtain ⟨a, ha, hb⟩ := (ih now).mp h
        exact ⟨a, .read now ha, hb⟩
    · rintro ⟨a, ha, hb⟩
      cases ha with
      | read now ha => exact .read now ((ih now).mpr ⟨a, ha, hb⟩)

theorem bind_done (t : Timed α) : t.bind .done = t := by
  induction t with
  | done a => rfl
  | read next ih => exact congrArg read (funext ih)

theorem bind_assoc {γ : Type} (t : Timed α) (f : α → Timed β) (g : β → Timed γ) :
    (t.bind f).bind g = t.bind fun a => (f a).bind g := by
  induction t with
  | done a => rfl
  | read next ih => exact congrArg read (funext ih)

instance : LawfulMonad Timed := .mk' _ bind_done (fun _ _ => rfl) bind_assoc

theorem run_bind_done (clock : Nat → Instant) (t : Timed α) (f : α → β) :
    (t.bind fun a => .done (f a)).run clock = f (t.run clock) := by
  have hrun : ∀ n, (t.bind fun a => .done (f a)).runFrom clock n = f (t.runFrom clock n) := by
    induction t with
    | done a => exact fun _ => rfl
    | read next ih => exact fun n => ih (clock n) (n + 1)
  exact hrun 0

section Failures
variable {ε δ : Type}

theorem ends_run_bind_iff {m : ExceptT ε Timed α} {f : α → ExceptT ε Timed β}
    {r : Except ε β} : Ends (m >>= f).run r ↔
      (∃ cause, Ends m.run (.error cause) ∧ r = .error cause) ∨
        ∃ a, Ends m.run (.ok a) ∧ Ends (f a).run r := by
  change Ends (m.run.bind (ExceptT.bindCont f)) r ↔ _
  rw [ends_bind_iff]
  constructor
  · rintro ⟨a | a, ha, h⟩
    · exact .inl ⟨a, ha, (ends_done_iff.mp h).symm⟩
    · exact .inr ⟨a, ha, h⟩
  · rintro (⟨cause, h, rfl⟩ | ⟨a, ha, h⟩)
    · exact ⟨.error cause, h, .done _⟩
    · exact ⟨.ok a, ha, h⟩

theorem ends_run_lift_iff {t : Timed α} {r : Except ε α} :
    Ends (ExceptT.lift t).run r ↔ ∃ a, Ends t a ∧ r = .ok a := by
  change Ends (t.bind fun a => .done (.ok a)) r ↔ _
  rw [ends_bind_iff]
  simp only [ends_done_iff, eq_comm]

theorem ends_run_ofExcept_iff {f : ε → δ} {a : Except ε α} {r : Except δ α} :
    Ends (ofExcept f a).run r ↔ r = a.mapError f := by
  cases a <;> exact ends_done_iff.trans eq_comm

end Failures

end Timed

namespace Evaluation

variable {α β γ δ : Type}

/-- An evaluation yields `a` when it succeeds with it for some readings of the clock. -/
def Yields (m : Evaluation α) (a : α) : Prop := Timed.Ends m.run (.ok a)

theorem yields_pure_iff {a b : α} : Yields (pure a) b ↔ a = b := by
  unfold Yields
  rw [show (pure a : Evaluation α).run = .done (.ok a) from rfl, Timed.ends_done_iff,
    Except.ok.injEq]

theorem yields_of_eq_pure {m : Evaluation α} {a : α} (h : m = pure a) : Yields m a :=
  h ▸ yields_pure_iff.mpr rfl

theorem pure_injective {a b : α} (h : (pure a : Evaluation α) = pure b) : a = b :=
  yields_pure_iff.mp (yields_of_eq_pure h)

theorem not_yields_throw {e : EvaluationError} {a : α} : ¬ Yields (throw e : Evaluation α) a := by
  intro h
  have h' : Timed.Ends (.done (.error e)) (.ok a : Except EvaluationError α) := h
  simp [Timed.ends_done_iff] at h'

theorem yields_bind_iff {m : Evaluation α} {f : α → Evaluation β} {b : β} :
    Yields (m >>= f) b ↔ ∃ a, Yields m a ∧ Yields (f a) b := by
  unfold Yields
  rw [ExceptT.run_bind]
  change Timed.Ends (Timed.bind _ _) _ ↔ _
  rw [Timed.ends_bind_iff]
  constructor
  · rintro ⟨r, hr, hb⟩
    cases r with
    | ok a => exact ⟨a, hr, hb⟩
    | error e => exact absurd hb (not_yields_throw (e := e))
  · rintro ⟨a, ha, hb⟩
    exact ⟨.ok a, ha, hb⟩

/-- An evaluation fails with `e` for some readings of the clock. -/
def Fails (m : Evaluation α) (e : EvaluationError) : Prop := Timed.Ends m.run (.error e)

theorem not_fails_pure {a : α} {e : EvaluationError} : ¬ Fails (pure a : Evaluation α) e := by
  intro h
  have h' : Timed.Ends (.done (.ok a)) (.error e : Except EvaluationError α) := h
  simp [Timed.ends_done_iff] at h'

theorem fails_throw_iff {e e' : EvaluationError} : Fails (throw e : Evaluation α) e' ↔ e = e' := by
  unfold Fails
  rw [show (throw e : Evaluation α).run = .done (.error e) from rfl, Timed.ends_done_iff,
    Except.error.injEq]

theorem fails_bind_iff {m : Evaluation α} {f : α → Evaluation β} {e : EvaluationError} :
    Fails (m >>= f) e ↔ Fails m e ∨ ∃ a, Yields m a ∧ Fails (f a) e := by
  unfold Fails Yields
  rw [ExceptT.run_bind]
  change Timed.Ends (Timed.bind _ _) _ ↔ _
  rw [Timed.ends_bind_iff]
  constructor
  · rintro ⟨r, hr, he⟩
    cases r with
    | ok a => exact .inr ⟨a, hr, he⟩
    | error e' => exact .inl (fails_throw_iff.mp he ▸ hr)
  · rintro (h | ⟨a, ha, he⟩)
    · exact ⟨.error e, h, .done _⟩
    · exact ⟨.ok a, ha, he⟩

/-- A sequence that asks nothing of the clock has no step that asks it. -/
theorem eq_pure_of_bind_eq_pure {m : Evaluation α} {f : α → Evaluation β} {b : β}
    (h : m >>= f = pure b) : ∃ a, m = pure a ∧ f a = pure b := by
  have hrun : m.run.bind (ExceptT.bindCont f) = .done (.ok b) := h
  cases hm : m.run with
  | read next =>
    rw [hm] at hrun
    cases hrun
  | done r =>
    rw [hm] at hrun
    cases r with
    | ok a => exact ⟨a, hm, hrun⟩
    | error e => cases hrun

/-! ## Settled evaluations -/

/-- The evaluation ends without reading the clock. -/
def Settled (m : Evaluation α) : Prop := (∃ a, m = pure a) ∨ ∃ e, m = throw e

theorem settled_pure (a : α) : Settled (pure a) := .inl ⟨a, rfl⟩

theorem settled_throw (e : EvaluationError) : Settled (throw e : Evaluation α) := .inr ⟨e, rfl⟩

theorem Settled.bind {m : Evaluation α} {f : α → Evaluation β} (hm : Settled m)
    (hf : ∀ a, Settled (f a)) : Settled (m >>= f) := by
  rcases hm with ⟨a, rfl⟩ | ⟨e, rfl⟩
  · rw [pure_bind]
    exact hf a
  · exact settled_throw e

/-- A settled evaluation that can yield a value is that value. -/
theorem Settled.eq_pure {m : Evaluation α} {a : α} (hm : Settled m) (h : Yields m a) :
    m = pure a := by
  rcases hm with ⟨b, rfl⟩ | ⟨e, rfl⟩
  · rw [yields_pure_iff.mp h]
  · exact absurd h not_yields_throw

/-! ## Agreement with a partial value -/

/-- The evaluation is settled; it has a result exactly when `r` has one, and then a related one. -/
def Agrees (m : Evaluation α) (r : Option β) (related : α → β → Prop) : Prop :=
  match r with
  | some b => ∃ a, m = pure a ∧ related a b
  | none => ∃ e, m = throw e

theorem agrees_pure {related : α → β → Prop} {a : α} {b : β} (h : related a b) :
    Agrees (pure a) (some b) related := ⟨a, rfl, h⟩

theorem agrees_throw {related : α → β → Prop} (e : EvaluationError) :
    Agrees (throw e) none related := ⟨e, rfl⟩

/-- Agreement goes through a sequence of two steps. -/
theorem Agrees.bind {m : Evaluation α} {r : Option β} {related : α → β → Prop}
    {f : α → Evaluation γ} {g : β → Option δ} {after : γ → δ → Prop} (hm : Agrees m r related)
    (hf : ∀ a b, r = some b → related a b → Agrees (f a) (g b) after) :
    Agrees (m >>= f) (r.bind g) after := by
  cases r with
  | some b =>
    obtain ⟨a, rfl, hab⟩ := hm
    rw [pure_bind]
    exact hf a b rfl hab
  | none =>
    obtain ⟨e, rfl⟩ := hm
    exact ⟨e, rfl⟩

/-- A last step that cannot fail. -/
theorem Agrees.map {m : Evaluation α} {r : Option β} {related : α → β → Prop} {f : α → γ}
    {after : γ → β → Prop} (hm : Agrees m r related)
    (hf : ∀ a b, r = some b → related a b → after (f a) b) :
    Agrees (m >>= fun a => pure (f a)) r after := by
  cases r with
  | some b =>
    obtain ⟨a, rfl, hab⟩ := hm
    exact ⟨f a, rfl, hf a b rfl hab⟩
  | none =>
    obtain ⟨e, rfl⟩ := hm
    exact ⟨e, rfl⟩

theorem Agrees.imp {m : Evaluation α} {r : Option β} {related after : α → β → Prop}
    (hm : Agrees m r related) (h : ∀ a b, related a b → after a b) : Agrees m r after := by
  cases r with
  | some b =>
    obtain ⟨a, rfl, hab⟩ := hm
    exact ⟨a, rfl, h a b hab⟩
  | none => exact hm

/-- The other side may take a last step alone. -/
theorem Agrees.bind_some {m : Evaluation α} {r : Option β} {related : α → β → Prop} {g : β → γ}
    {after : α → γ → Prop} (hm : Agrees m r related) (h : ∀ a b, related a b → after a (g b)) :
    Agrees m (r.bind fun b => some (g b)) after := by
  cases r with
  | some b =>
    obtain ⟨a, rfl, hab⟩ := hm
    exact ⟨a, rfl, h a b hab⟩
  | none => exact hm

/-- Where both results are known they are related. -/
theorem Agrees.related_of_eq {m : Evaluation α} {r : Option β} {related : α → β → Prop} {a : α}
    {b : β} (h : Agrees m r related) (hm : m = pure a) (hr : r = some b) : related a b := by
  subst hm hr
  obtain ⟨a', ha, hab⟩ := h
  exact pure_injective ha ▸ hab

theorem Agrees.ne_none {m : Evaluation α} {r : Option β} {related : α → β → Prop} {a : α}
    (h : Agrees m r related) (hm : m = pure a) : r ≠ none := by
  rintro rfl
  obtain ⟨e, he⟩ := h
  exact not_yields_throw (yields_of_eq_pure (he.symm.trans hm))

/-! ## Ends in time or too late -/

/-- The evaluation ends with `r`, or with a timeout of the given deadline. -/
def Reaches (deadline : Option Deadline) (m : Evaluation α) (r : Except EvaluationError α) : Prop :=
  ∀ e, Timed.Ends m.run e → e = r ∨ ∃ d ∈ deadline, e = .error (.timeout d.limit)

variable {deadline : Option Deadline}

theorem reaches_pure (a : α) : Reaches deadline (pure a) (.ok a) :=
  fun _ he => .inl (Timed.ends_done_iff.mp he).symm

theorem reaches_throw (e : EvaluationError) : Reaches deadline (throw e : Evaluation α) (.error e) :=
  fun _ he => .inl (Timed.ends_done_iff.mp he).symm

theorem Reaches.bind {m : Evaluation α} {r : Except EvaluationError α} {f : α → Evaluation β}
    {g : α → Except EvaluationError β} (hm : Reaches deadline m r)
    (hf : ∀ a, r = .ok a → Reaches deadline (f a) (g a)) : Reaches deadline (m >>= f) (r >>= g) := by
  intro e he
  rw [ExceptT.run_bind] at he
  obtain ⟨r', hr', he⟩ := Timed.ends_bind_iff.mp he
  rcases hm r' hr' with rfl | ⟨d, hd, rfl⟩
  · cases r' with
    | ok a => exact hf a rfl e he
    | error cause => exact .inl (Timed.ends_done_iff.mp he).symm
  · exact .inr ⟨d, hd, (Timed.ends_done_iff.mp he).symm⟩

theorem Reaches.bind_ok {m : Evaluation α} {a : α} {f : α → Evaluation β}
    {r : Except EvaluationError β} (hm : Reaches deadline m (.ok a))
    (hf : Reaches deadline (f a) r) : Reaches deadline (m >>= f) r :=
  hm.bind (g := fun _ => r) fun _ h => Except.ok.inj h ▸ hf

theorem Reaches.map {m : Evaluation α} {r : Except EvaluationError α} (hm : Reaches deadline m r)
    (f : α → β) : Reaches deadline (f <$> m) (r.map f) := by
  have hmap : r.map f = r >>= fun a => .ok (f a) := by cases r <;> rfl
  rw [map_eq_pure_bind, hmap]
  exact hm.bind fun a _ => reaches_pure (f a)

theorem Reaches.run {m : Evaluation α} {r : Except EvaluationError α} (h : Reaches deadline m r)
    (clock : Nat → Instant) :
    m.run.run clock = r ∨ ∃ d ∈ deadline, m.run.run clock = .error (.timeout d.limit) :=
  h _ (Timed.ends_runFrom clock 0 _)

end Evaluation

end SparqlBind
