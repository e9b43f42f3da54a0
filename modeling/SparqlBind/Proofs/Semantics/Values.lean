import SparqlBind.Evaluation.Rows
import SparqlBind.Extension.Table

/-!
# Values that are literals

A literal is read as a value that is a literal again, so the canonical text of a term leaves its kind
alone. Operators, constructors of datatypes and most functions have literals for values; only a few
functions make an IRI or a blank node.
-/

namespace SparqlBind

namespace Value

/-- Whatever value there is, it is a literal. -/
def LiteralOnly (o : Option Value) : Prop := ∀ v, o = some v → v.isLiteral = true

@[simp] theorem literalOnly_none : LiteralOnly none := fun _ h => by cases h

@[simp] theorem literalOnly_some {v : Value} : LiteralOnly (some v) ↔ v.isLiteral = true :=
  ⟨fun h => h v rfl, fun h _ hv => Option.some.inj hv ▸ h⟩

@[simp] theorem literalOnly_bind {α : Type} {o : Option α} {f : α → Option Value} :
    LiteralOnly (o.bind f) ↔ ∀ a, o = some a → LiteralOnly (f a) := by
  cases o <;> simp

@[simp] theorem literalOnly_map {α : Type} {o : Option α} {f : α → Value} :
    LiteralOnly (o.map f) ↔ ∀ a, o = some a → (f a).isLiteral = true := by
  cases o <;> simp

theorem literalOnly_ite {c : Prop} [Decidable c] {o : Option Value} (h : c → LiteralOnly o) :
    LiteralOnly (if c then o else none) := by
  split
  · exact h ‹c›
  · exact literalOnly_none

/-! ## Reading literals -/

theorem literalOnly_parseXsd? (name text : String) : LiteralOnly (parseXsd? name text) := by
  unfold parseXsd?
  split
  -- the names of dates and times are looked up, those of integers come last
  case h_9 =>
    split
    · simp [isLiteral]
    · exact literalOnly_ite fun _ => by simp [isLiteral]
  all_goals simp [isLiteral]

theorem isLiteral_ofLiteral (l : Literal) : (ofLiteral l).isLiteral = true := by
  cases l with
  | plain text => rfl
  | tagged text language => rfl
  | typed text datatype =>
    rw [ofLiteral]
    cases h : (xsdName? datatype).bind fun name => parseXsd? name text with
    | none => rfl
    | some v =>
      obtain ⟨name, _, hv⟩ := Option.bind_eq_some_iff.mp h
      exact literalOnly_parseXsd? name text v hv

theorem exists_toTerm_of_isLiteral {v : Value} (h : v.isLiteral = true) :
    ∃ l, v.toTerm = .literal l := by
  cases v with
  | iri i => cases h
  | blank label => cases h
  | _ => exact ⟨_, rfl⟩

@[simp] theorem isLiteral_ofWorded (text : String) (language : Option String) :
    (ofWorded text language).isLiteral = true := by
  cases language <;> rfl

/-! ## Arithmetic -/

theorem literalOnly_integer? (n : Int) : LiteralOnly (integer? n) :=
  literalOnly_ite fun _ => literalOnly_some.mpr rfl

theorem literalOnly_shift? (kind : TimestampKind) (t : Timestamp) (durationKind : DurationKind)
    (d : XsdDuration) : LiteralOnly (shift? kind t durationKind d) := by
  unfold shift?
  split
  · exact literalOnly_none
  · exact literalOnly_ite fun _ => by simp [isLiteral]

theorem literalOnly_add? (a b : Value) : LiteralOnly (add? a b) := by
  unfold add?
  split
  · exact literalOnly_integer? _
  · simp [isLiteral]
  · exact literalOnly_some.mpr rfl
  · exact literalOnly_some.mpr rfl
  · split <;> simp [isLiteral, literalOnly_shift?]

theorem literalOnly_subtract? (a b : Value) : LiteralOnly (subtract? a b) := by
  unfold subtract?
  split
  · exact literalOnly_integer? _
  · simp [isLiteral]
  · exact literalOnly_some.mpr rfl
  · exact literalOnly_some.mpr rfl
  · split
    · simp [isLiteral]
    · simp [literalOnly_shift?]
    · exact literalOnly_ite fun _ => by simp [isLiteral]
    · exact literalOnly_none

theorem literalOnly_multiply? (a b : Value) : LiteralOnly (multiply? a b) := by
  unfold multiply?
  split <;> simp [isLiteral, literalOnly_integer?]

theorem literalOnly_divide? (a b : Value) : LiteralOnly (divide? a b) := by
  unfold divide?
  split <;> simp [isLiteral]

end Value

open Value

theorem BinaryOp.literalOnly_value? (op : BinaryOp) (a b : Option Value) :
    LiteralOnly (op.value? a b) := by
  cases op <;> simp [BinaryOp.value?, isLiteral, comparison?, literalOnly_add?,
    literalOnly_subtract?, literalOnly_multiply?, literalOnly_divide?]

theorem UnaryOp.literalOnly_value? (op : UnaryOp) (a : Value) : LiteralOnly (op.value? a) := by
  cases op <;> cases a <;>
    simp [UnaryOp.value?, isLiteral, plus?, minus?, truth?, literalOnly_integer?]

theorem literalOnly_oneOf? (a : Option Value) (candidates : List (Option Value)) :
    LiteralOnly (oneOf? a candidates) := by
  unfold oneOf?
  split
  · simp [isLiteral]
  · dsimp only
    split
    · exact literalOnly_some.mpr rfl
    · split
      · exact literalOnly_none
      · exact literalOnly_some.mpr rfl

/-! ## Functions of texts -/

namespace Value

theorem literalOnly_mapText? (f : String → String) (v : Value) : LiteralOnly (mapText? f v) := by
  simp [mapText?]

theorem literalOnly_concat? (vs : List Value) : LiteralOnly (concat? vs) := by
  unfold concat?
  split
  · exact literalOnly_some.mpr rfl
  · refine literalOnly_bind.mpr fun parts _ => literalOnly_some.mpr ?_
    split
    · exact isLiteral_ofWorded _ _
    · rfl

theorem literalOnly_substring? (v start : Value) (length : Option Value) :
    LiteralOnly (substring? v start length) := by
  unfold substring?
  refine literalOnly_bind.mpr fun p _ => ?_
  dsimp only
  split
  · split
    · refine literalOnly_bind.mpr fun rest _ => ?_
      split
      · simp
      · exact literalOnly_ite fun _ => by simp
      · exact literalOnly_none
    · exact literalOnly_none
  · exact literalOnly_none

theorem literalOnly_before? (a b : Value) : LiteralOnly (before? a b) := by
  unfold before?
  refine literalOnly_bind.mpr fun p _ => ?_
  dsimp only
  split
  · simp
  · exact literalOnly_some.mpr rfl

theorem literalOnly_after? (a b : Value) : LiteralOnly (after? a b) := by
  unfold after?
  refine literalOnly_bind.mpr fun p _ => ?_
  dsimp only
  split
  · simp
  · exact literalOnly_some.mpr rfl

theorem literalOnly_matches? (text pattern : Value) (flags : Option Value) :
    LiteralOnly (matches? text pattern flags) := by
  simp [matches?, isLiteral]

theorem literalOnly_replace? (text pattern replacement : Value) (flags : Option Value) :
    LiteralOnly (replace? text pattern replacement flags) := by
  simp [replace?]

theorem literalOnly_withLanguage? (text tag : Value) : LiteralOnly (withLanguage? text tag) :=
  literalOnly_bind.mpr fun _ _ => literalOnly_bind.mpr fun _ _ =>
    literalOnly_ite fun _ => literalOnly_some.mpr rfl

theorem literalOnly_withDatatype? (text datatype : Value) :
    LiteralOnly (withDatatype? text datatype) := by
  cases datatype with
  | iri d => exact literalOnly_bind.mpr fun _ _ => literalOnly_some.mpr (isLiteral_ofLiteral _)
  | _ => exact literalOnly_none

/-! ## Constructors of datatypes -/

theorem literalOnly_decimalToInteger (d : Decimal) : LiteralOnly (decimalToInteger d) :=
  literalOnly_ite fun _ => literalOnly_some.mpr rfl

theorem literalOnly_toTimestamp? (kind : TimestampKind) (v : Value) :
    LiteralOnly (toTimestamp? kind v) := by
  unfold toTimestamp?
  split
  · split
    · exact literalOnly_some.mpr rfl
    · exact literalOnly_ite fun _ => by simp [isLiteral]
  · simp [isLiteral]
  · exact literalOnly_none

theorem literalOnly_toDuration? (kind : DurationKind) (v : Value) :
    LiteralOnly (toDuration? kind v) := by
  unfold toDuration?
  split
  · exact literalOnly_ite fun _ => literalOnly_some.mpr rfl
  · simp [isLiteral]
  · exact literalOnly_none

theorem literalOnly_constructors :
    ∀ e ∈ constructors, ∀ v, LiteralOnly (e.2 v) := by
  simp only [constructors, List.forall_mem_cons, literalOnly_toTimestamp?, literalOnly_toDuration?]
  refine ⟨fun v => by simp [isLiteral], ?_, ?_, ?_, ?_, ?_, by simp⟩ <;> intro v <;> cases v <;>
    simp [toBoolean?, toDouble?, toFloat?, toInteger?, toDecimal?, isLiteral, truth?,
      literalOnly_decimalToInteger]

theorem literalOnly_of_constructor? {f : Iri} {construct : Value → Option Value}
    (h : constructor? f = some construct) (v : Value) : LiteralOnly (construct v) := by
  obtain ⟨name, _, hlookup⟩ := Option.bind_eq_some_iff.mp h
  obtain ⟨before, after, hentries, _⟩ := List.lookup_eq_some_iff.mp hlookup
  exact literalOnly_constructors (name, construct)
    (hentries ▸ List.mem_append_right _ List.mem_cons_self) v

end Value

/-! ## Built-in functions -/

namespace BuiltIn

theorem literalOnly_numberFunction? (f : BuiltIn) (v : Value) :
    LiteralOnly (numberFunction? f v) := by
  cases f <;> cases v <;> simp [numberFunction?, Value.isLiteral, abs?, ceil?, floor?, round?,
    literalOnly_integer?]

theorem literalOnly_textFunction? (f : BuiltIn) (vs : List Value) :
    LiteralOnly (textFunction? f vs) := by
  unfold textFunction?
  split <;> simp [Value.isLiteral, literalOnly_concat?, literalOnly_substring?, literalOnly_mapText?,
    length?, contains?, startsWith?, endsWith?, literalOnly_before?, literalOnly_after?,
    literalOnly_replace?, literalOnly_matches?, digest?]

theorem literalOnly_field? (kinds : List TimestampKind) {read : CalendarFields → Value}
    (h : ∀ c, (read c).isLiteral = true) (v : Value) : LiteralOnly (field? kinds read v) := by
  unfold field?
  split
  · exact literalOnly_ite fun _ => literalOnly_some.mpr (h _)
  · exact literalOnly_none

theorem literalOnly_timeFunction? (f : BuiltIn) (vs : List Value) :
    LiteralOnly (timeFunction? f vs) := by
  unfold timeFunction?
  split <;> first
    | exact literalOnly_field? _ (fun _ => rfl) _
    | simp [Value.isLiteral, offsetDuration]

/-- The functions that make a term which is not a literal. -/
def makesTerm (f : BuiltIn) : Bool := [iri, datatype, bnode, uuid].contains f

theorem literalOnly_termFunction? (c : FunctionContext) {f : BuiltIn} (hf : f.makesTerm = false)
    (vs : List Value) : LiteralOnly (termFunction? c f vs) := by
  unfold termFunction?
  split <;> first
    | exact absurd hf (by decide)
    | simp [ofBool, Value.isLiteral, langMatches?, literalOnly_withLanguage?, literalOnly_withDatatype?]

theorem literalOnly_value? (c : FunctionContext) {f : BuiltIn} (hf : f.makesTerm = false)
    (vs : List Value) : LiteralOnly (f.value? c vs) := by
  unfold value?
  split
  · exact literalOnly_textFunction? f vs
  · split
    · exact literalOnly_timeFunction? f vs
    · split
      · split
        · exact literalOnly_numberFunction? f _
        · exact literalOnly_none
      · exact literalOnly_termFunction? c hf vs

end BuiltIn

/-! ## Aggregates -/

namespace AggregateFunction

theorem mem_distinctValues {seen values : List (Option Value)} {v : Option Value}
    (h : v ∈ distinctValues seen values) : v ∈ values := by
  induction values generalizing seen with
  | nil => exact h
  | cons w rest ih =>
    rw [distinctValues] at h
    split at h
    · exact List.mem_cons_of_mem _ (ih h)
    · rcases List.mem_cons.mp h with rfl | h
      · exact List.mem_cons_self
      · exact List.mem_cons_of_mem _ (ih h)

theorem mem_of_complete? {values : List (Option Value)} {vs : List Value}
    (h : complete? values = some vs) {v : Value} (hv : v ∈ vs) : some v ∈ values := by
  unfold complete? at h
  induction values generalizing vs with
  | nil =>
    obtain rfl := Option.some.inj h
    cases hv
  | cons o rest ih =>
    rw [List.mapM_cons] at h
    obtain ⟨w, hw, hrest⟩ := Option.bind_eq_some_iff.mp h
    obtain ⟨ws, hws, hvs⟩ := Option.bind_eq_some_iff.mp hrest
    obtain rfl : o = some w := hw
    obtain rfl := Option.some.inj hvs
    rcases List.mem_cons.mp hv with rfl | hv
    · exact List.mem_cons_self
    · exact List.mem_cons_of_mem _ (ih hws hv)

theorem mem_of_extreme? {before : Ordering} {vs : List Value} {v : Value}
    (h : extreme? before vs = some v) : v ∈ vs := by
  have hfold : ∀ (rest : List Value) (best : Value),
      rest.foldl (fun best w => if Value.order (some w) (some best) = before then w else best) best ∈
        best :: rest := by
    intro rest
    induction rest with
    | nil => exact fun best => List.mem_singleton_self best
    | cons w rest ih =>
      intro best
      rw [List.foldl_cons]
      split
      · exact List.mem_cons_of_mem _ (ih w)
      · rcases List.mem_cons.mp (ih best) with h | h
        · rw [h]
          exact List.mem_cons_self
        · exact List.mem_cons_of_mem _ (List.mem_cons_of_mem _ h)
  cases vs with
  | nil => cases h
  | cons w rest => exact Option.some.inj h ▸ hfold rest w

theorem literalOnly_sum? (vs : List Value) : Value.LiteralOnly (sum? vs) := by
  have hfold : ∀ (vs : List Value) (total : Value), total.isLiteral = true →
      Value.LiteralOnly (vs.foldlM Value.add? total) := by
    intro vs
    induction vs with
    | nil => exact fun total h => Value.literalOnly_some.mpr h
    | cons v rest ih =>
      exact fun total _ => Value.literalOnly_bind.mpr fun next hnext =>
        ih next (Value.literalOnly_add? total v next hnext)
  exact hfold vs _ rfl

theorem literalOnly_avg? (vs : List Value) : Value.LiteralOnly (avg? vs) := by
  unfold avg?
  split
  · exact Value.literalOnly_some.mpr rfl
  · exact Value.literalOnly_bind.mpr fun total _ => Value.literalOnly_divide? total _

theorem literalOnly_joinTexts (separator : String) (vs : List Value) :
    Value.LiteralOnly (joinTexts separator vs) := by
  refine Value.literalOnly_bind.mpr fun parts _ => Value.literalOnly_some.mpr ?_
  split
  · exact Value.isLiteral_ofWorded _ _
  · rfl

/-- An aggregate gives a literal or one of the values. -/
theorem isLiteral_or_mem_of_apply {f : AggregateFunction} {distinct : Bool}
    {values : List (Option Value)} {v : Value} (h : f.apply distinct values = some v) :
    v.isLiteral = true ∨ some v ∈ values := by
  unfold apply at h
  have hsub : ∀ w, w ∈ (if distinct then distinctValues [] values else values) → w ∈ values := by
    intro w hw
    split at hw
    · exact mem_distinctValues hw
    · exact hw
  generalize (if distinct then distinctValues [] values else values) = taken at h hsub
  cases f with
  | count => exact .inl (Option.some.inj h ▸ rfl)
  | sum =>
    obtain ⟨vs, _, h⟩ := Option.bind_eq_some_iff.mp h
    exact .inl (literalOnly_sum? vs v h)
  | avg =>
    obtain ⟨vs, _, h⟩ := Option.bind_eq_some_iff.mp h
    exact .inl (literalOnly_avg? vs v h)
  | min | max =>
    obtain ⟨vs, hvs, h⟩ := Option.bind_eq_some_iff.mp h
    exact .inr (hsub _ (mem_of_complete? hvs (mem_of_extreme? h)))
  | sample =>
    exact .inr (hsub _ (List.mem_of_mem_head? (Option.join_eq_some_iff.mp h)))
  | groupConcat separator =>
    obtain ⟨vs, _, h⟩ := Option.bind_eq_some_iff.mp h
    exact .inl (literalOnly_joinTexts _ vs v h)

end AggregateFunction

/-! ## Canonical terms -/

namespace Term

@[simp] theorem canonical_iri (i : Iri) : (iri i).canonical = iri i := rfl

@[simp] theorem canonical_blank (label : String) : (blank label).canonical = blank label := rfl

theorem exists_canonical_literal (l : Literal) : ∃ m, (literal l).canonical = literal m :=
  Value.exists_toTerm_of_isLiteral (Value.isLiteral_ofLiteral l)

end Term

end SparqlBind
