import SparqlBind.CommandLine.Seconds
import SparqlBind.Proofs.Endpoint.Refusals

/-!
# Timeouts

The deadline of a query is the instant of its start plus the timeout, exactly, unless that lies beyond
the last instant. Every number of seconds below `2 ^ 64` is accepted as a timeout while instants end
before `2 ^ 63`, so some timeouts have no deadline: a query with one breaks off, and it is the only way
for a query to break off.
-/

namespace SparqlBind

/-! ## Sums of instants and durations -/

/-- The number of nanoseconds. -/
def Duration.total (d : Duration) : Int := d.seconds * 1000000000 + d.nanoseconds

namespace Instant

/-- The number of nanoseconds since second zero. -/
def total (i : Instant) : Int := i.seconds * 1000000000 + i.nanoseconds

/-- The seconds are signed 64-bit numbers and the nanoseconds less than one second. -/
structure IsProper (i : Instant) : Prop where
  minSeconds_le : minSeconds ≤ i.seconds
  le_maxSeconds : i.seconds ≤ maxSeconds
  nanoseconds_lt : i.nanoseconds < 1000000000

def last : Instant := ⟨maxSeconds, 999999999⟩

variable {now : Instant} {d : Duration}

/-- The seconds are checked before and after the carry of the nanoseconds; the second check is
enough. -/
theorem add?_eq (now : Instant) (d : Duration) : now.add? d =
    let nanoseconds := now.nanoseconds + d.nanoseconds
    let seconds := now.seconds + d.seconds + (nanoseconds / 1000000000 : Nat)
    if seconds ≤ maxSeconds then some ⟨seconds, nanoseconds % 1000000000⟩ else none := by
  unfold add?
  refine if_congr ?_ rfl rfl
  rw [Bool.and_eq_true, decide_eq_true_eq, decide_eq_true_eq]
  refine ⟨And.right, fun h => ⟨?_, h⟩⟩
  omega

theorem add?_eq_none_iff (now : Instant) (d : Duration) :
    now.add? d = none ↔ last.total < now.total + d.total := by
  rw [add?_eq]
  simp only [total, Duration.total, last]
  split
  · refine iff_of_false nofun ?_
    omega
  · refine iff_of_true rfl ?_
    omega

theorem total_of_add? {later : Instant} (hnow : now.IsProper) (h : now.add? d = some later) :
    later.IsProper ∧ later.total = now.total + d.total := by
  have hseconds := hnow.minSeconds_le
  rw [add?_eq] at h
  dsimp only at h
  split at h
  · next hle =>
    obtain rfl := Option.some.inj h
    refine ⟨⟨?_, hle, Nat.mod_lt _ (by decide)⟩, ?_⟩
    · simp only [minSeconds] at *
      omega
    · simp only [total, Duration.total]
      omega
  · cases h

end Instant

/-! ## Accepted timeouts -/

namespace Seconds

theorem bounds_of_durationOf {b : Nearest.Binary} {d : Duration} (h : durationOf b = .ok d) :
    d.seconds < 2 ^ 64 ∧ d.nanoseconds < 1000000000 := by
  simp only [durationOf] at h
  split at h
  · cases h
  · next hsize =>
    obtain rfl := Except.ok.inj h
    exact ⟨Nat.lt_of_not_le hsize, Nat.mod_lt _ (by decide)⟩

theorem bounds_of_toDuration {negative : Bool} {m : Magnitude} {d : Duration}
    (h : m.toDuration negative = .ok d) : d.seconds < 2 ^ 64 ∧ d.nanoseconds < 1000000000 := by
  cases m with
  | notANumber => cases h
  | infinite => cases h
  | finite digits exponent =>
    simp only [Magnitude.toDuration] at h
    split at h
    · cases h
    · split at h
      · cases h
      · exact bounds_of_durationOf h

theorem bounds_of_parse {text : String} {d : Duration} (h : parse text = .ok d) :
    d.seconds < 2 ^ 64 ∧ d.nanoseconds < 1000000000 := by
  unfold parse at h
  dsimp only at h
  split at h
  · cases h
  · split at h
    · cases h
    · exact bounds_of_toDuration h

end Seconds

/-! ## Queries with a timeout -/

namespace QueryEndpoint

variable {e : QueryEndpoint} {q : Query} {limit : Duration} {clock : Nat → Instant}

/-- A query breaks off before its evaluation, never within it. -/
theorem not_ends_evaluate (c : EvaluationContext) :
    ¬ Timed.Ends (e.evaluate c q).run (.error .deadlineOverflow) := by
  intro h
  obtain ⟨r, _, hr⟩ := ends_evaluate h
  cases r <;> cases hr

/-- The deadline is computed from the first reading of the clock. -/
theorem run_outcome_of_timeout (htimeout : e.timeout = some limit) (q : Query) :
    (e.outcome q).run.run clock =
      ((EvaluationContext.ofStore e.engine e.store).withTimeout? (clock 0) limit).elim
        (.error .deadlineOverflow) fun c => (e.evaluate c q).run.runFrom clock 1 := by
  unfold outcome context
  rw [htimeout]
  change Timed.runFrom clock 1 (Timed.bind _ (ExceptT.bindCont fun c => e.evaluate c q)) = _
  dsimp only [Timed.bind, Function.comp_apply, ExceptT.bindCont]
  cases (EvaluationContext.ofStore e.engine e.store).withTimeout? (clock 0) limit <;> rfl

theorem outcome_breaksOff_iff (htimeout : e.timeout = some limit) (q : Query) :
    (e.outcome q).run.run clock = .error .deadlineOverflow ↔ (clock 0).add? limit = none := by
  have hnone : (EvaluationContext.ofStore e.engine e.store).withTimeout? (clock 0) limit = none ↔
      (clock 0).add? limit = none := Option.map_eq_none_iff
  rw [run_outcome_of_timeout htimeout, ← hnone]
  cases (EvaluationContext.ofStore e.engine e.store).withTimeout? (clock 0) limit with
  | none => exact iff_of_true rfl rfl
  | some c =>
    refine iff_of_false (fun h => ?_) nofun
    have h : (e.evaluate c q).run.runFrom clock 1 = .error .deadlineOverflow := h
    exact not_ends_evaluate c (h ▸ Timed.ends_runFrom clock 1 (e.evaluate c q).run)

/-- A query that is read breaks off when its deadline lies beyond the last instant. -/
theorem query_breaksOff_iff (htimeout : e.timeout = some limit) (text : String)
    (accept : Option String) : (e.query text accept).run.run clock = .error .deadlineOverflow ↔
      (∃ q kind, classify text e.namespaces = .ok (q, kind)) ∧
        Instant.last.total < (clock 0).total + limit.total := by
  rw [← Instant.add?_eq_none_iff]
  cases hread : classify text e.namespaces with
  | error cause =>
    rw [query_of_unread hread]
    exact iff_of_false nofun fun ⟨⟨_, _, h⟩, _⟩ => nomatch h
  | ok r =>
    obtain ⟨q, kind⟩ := r
    rw [query_of_read hread, ← outcome_breaksOff_iff htimeout q]
    cases (e.outcome q).run.run clock with
    | error cause => simp [Except.bind]
    | ok o =>
      refine iff_of_false (fun h => ?_) (fun h => nomatch h.2)
      simp only [Except.bind, respond] at h
      split at h <;> cases h

end QueryEndpoint

/-- Every accepted timeout is below `2 ^ 64` seconds, and its deadline is the exact sum unless that lies
beyond the last instant; then, and only then, a query that is read breaks off. -/
theorem Seconds.deadline_of_parse {text : String} {limit : Duration} (h : parse text = .ok limit) :
    (limit.seconds < 2 ^ 64 ∧ limit.nanoseconds < 1000000000) ∧
    (∀ (c : EvaluationContext) (now : Instant), now.IsProper →
      (now.total + limit.total ≤ Instant.last.total → ∃ deadline : Instant, deadline.IsProper ∧
        deadline.total = now.total + limit.total ∧
        c.withTimeout? now limit = some { c with deadline := some ⟨deadline, limit⟩ }) ∧
      (Instant.last.total < now.total + limit.total → c.withTimeout? now limit = none)) ∧
    ∀ (e : QueryEndpoint) (query : String) (accept : Option String) (clock : Nat → Instant),
      ((e.withTimeout limit).query query accept).run.run clock = .error .deadlineOverflow ↔
        (∃ q kind, classify query e.namespaces = .ok (q, kind)) ∧
          Instant.last.total < (clock 0).total + limit.total := by
  refine ⟨bounds_of_parse h, fun c now hnow => ⟨fun hle => ?_, fun hlt => ?_⟩,
    fun e query accept clock => QueryEndpoint.query_breaksOff_iff rfl query accept⟩
  · cases hadd : now.add? limit with
    | none => exact absurd ((Instant.add?_eq_none_iff now limit).mp hadd) (not_lt_of_ge hle)
    | some deadline =>
      obtain ⟨hproper, htotal⟩ := Instant.total_of_add? hnow hadd
      exact ⟨deadline, hproper, htotal, by rw [EvaluationContext.withTimeout?, hadd]; rfl⟩
  · rw [EvaluationContext.withTimeout?, (Instant.add?_eq_none_iff now limit).mpr hlt]
    rfl

namespace Sample

theorem parse_huge : Seconds.parse "1e19" = .ok ⟨10000000000000000000, 0⟩ := by decide +kernel

theorem parse_short : Seconds.parse "1.5" = .ok ⟨1, 500000000⟩ := by decide +kernel

end Sample

open Sample in
theorem Seconds.deadline_of_parse_short :
    (EvaluationContext.ofStore (endpoint []).engine (endpoint []).store).withTimeout? default
      ⟨1, 500000000⟩ ≠ none ∧
    (((endpoint []).withTimeout ⟨1, 500000000⟩).query "ASK {}" none).run.run still ≠
      .error .deadlineOverflow := by
  obtain ⟨-, hcontext, hquery⟩ := deadline_of_parse parse_short
  constructor
  · obtain ⟨deadline, -, -, hsome⟩ := (hcontext (.ofStore (endpoint []).engine (endpoint []).store)
      default ⟨by decide, by decide, by decide⟩).1 (by decide)
    rw [hsome]
    nofun
  · intro h
    exact absurd ((hquery (endpoint []) _ none still).mp h).2 (by decide)

open Sample in
/-- A timeout is accepted and has no deadline at second zero. -/
theorem Seconds.deadline_of_parse_overflows :
    Seconds.parse "1e19" = .ok ⟨10000000000000000000, 0⟩ ∧
    (EvaluationContext.ofStore (endpoint []).engine (endpoint []).store).withTimeout? default
      ⟨10000000000000000000, 0⟩ = none ∧
    (((endpoint []).withTimeout ⟨10000000000000000000, 0⟩).query "ASK {}" none).run.run still =
      .error .deadlineOverflow := by
  refine ⟨parse_huge, rfl, ?_⟩
  exact (QueryEndpoint.query_breaksOff_iff rfl _ none).mpr ⟨⟨_, _, classify_askAll⟩, by decide⟩

end SparqlBind
