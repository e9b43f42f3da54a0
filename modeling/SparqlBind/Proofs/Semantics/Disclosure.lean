import SparqlBind.Proofs.Semantics.Provenance
import SparqlBind.Proofs.Semantics.Standard

/-!
# Values that tell IRIs from blank nodes

A table holds an IRI in the place of a blank node. Operators and most functions make nothing of the
difference: both are errors for them, or differ from all other terms. A few functions reveal it.
-/

namespace SparqlBind

/-! ## Values in a table -/

namespace Value

/-- The value that a table holds in the place of a value. -/
def presented : Value → Value
  | blank label => iri ⟨Skolem.namespaceText ++ label⟩
  | v => v

theorem toTerm_presented (v : Value) : v.presented.toTerm = (Skolem.encode v.toTerm).toTerm := by
  cases v <;> rfl

theorem presented_of_isLiteral {v : Value} (h : v.isLiteral = true) : v.presented = v := by
  cases v with
  | blank label => cases h
  | _ => rfl

theorem presented_ofTerm (t : Term) : (ofTerm t).presented = ofTerm (Skolem.encode t).toTerm := by
  cases t with
  | literal l => exact presented_of_isLiteral (isLiteral_ofLiteral l)
  | _ => rfl

theorem LiteralOnly.map_presented {o : Option Value} (h : LiteralOnly o) : o.map presented = o := by
  cases o with
  | none => rfl
  | some v => exact congrArg some (presented_of_isLiteral (h v rfl))

section Apply
variable {α : Type}

/-- What has one result on all IRIs and blank nodes has it in a table, too. -/
theorem apply_presented {f : Value → α} (h : ∀ i label, f (iri i) = f (blank label)) (v : Value) :
    f v.presented = f v := by
  cases v with
  | blank label => exact h _ label
  | _ => rfl

theorem apply₂_presented {f : Value → Value → α} (hl : ∀ i label b, f (iri i) b = f (blank label) b)
    (hr : ∀ a i label, f a (iri i) = f a (blank label)) (a b : Value) :
    f a.presented b.presented = f a b :=
  (@apply_presented α (fun a => f a b.presented) (fun i label => hl i label _) a).trans
    (apply_presented (hr a) b)

end Apply

@[simp] theorem isLiteral_presented (v : Value) : v.presented.isLiteral = v.isLiteral :=
  apply_presented (fun _ _ => rfl) v

@[simp] theorem truth?_presented (v : Value) : v.presented.truth? = v.truth? :=
  apply_presented (fun _ _ => rfl) v

@[simp] theorem plain?_presented (v : Value) : v.presented.plain? = v.plain? :=
  apply_presented (fun _ _ => rfl) v

@[simp] theorem worded?_presented (v : Value) : v.presented.worded? = v.worded? :=
  apply_presented (fun _ _ => rfl) v

@[simp] theorem language?_presented (v : Value) : v.presented.language? = v.language? :=
  apply_presented (fun _ _ => rfl) v

@[simp] theorem datatype?_presented (v : Value) : v.presented.datatype? = v.datatype? :=
  apply_presented (fun _ _ => rfl) v

@[simp] theorem numberPair?_presented (a b : Value) :
    numberPair? a.presented b.presented = numberPair? a b :=
  apply₂_presented (fun _ _ b => by cases b <;> rfl) (fun a _ _ => by cases a <;> rfl) a b

theorem orderLiterals?_presented (a b : Value) :
    orderLiterals? a.presented b.presented = orderLiterals? a b :=
  apply₂_presented (fun _ _ b => by cases b <;> rfl) (fun a _ _ => by cases a <;> rfl) a b

theorem add?_presented (a b : Value) : add? a.presented b.presented = add? a b :=
  apply₂_presented (fun _ _ b => by cases b <;> rfl) (fun a _ _ => by cases a <;> rfl) a b

theorem subtract?_presented (a b : Value) : subtract? a.presented b.presented = subtract? a b :=
  apply₂_presented (fun _ _ b => by cases b <;> rfl) (fun a _ _ => by cases a <;> rfl) a b

theorem multiply?_presented (a b : Value) : multiply? a.presented b.presented = multiply? a b := by
  unfold multiply?
  rw [numberPair?_presented]

theorem divide?_presented (a b : Value) : divide? a.presented b.presented = divide? a b := by
  unfold divide?
  rw [numberPair?_presented]

/-! ## Equality -/

def Unreserved (v : Value) : Prop := v.toTerm.isReserved = false

/-- Different values stay different in a table. -/
theorem sameTerm_presented {a b : Value} (ha : a.Unreserved) (hb : b.Unreserved) :
    sameTerm a.presented b.presented = sameTerm a b := by
  unfold sameTerm
  rw [toTerm_presented, toTerm_presented, decide_eq_decide]
  refine ⟨fun h => ?_, fun h => by rw [h]⟩
  rw [← Skolem.decode_encode ha, h, Skolem.decode_encode hb]

theorem compare?_presented {a b : Value} (ha : a.Unreserved) (hb : b.Unreserved) :
    compare? a.presented b.presented = compare? a b := by
  unfold compare?
  rw [numberPair?_presented, sameTerm_presented ha hb, orderLiterals?_presented]

theorem equal?_presented {a b : Value} (ha : a.Unreserved) (hb : b.Unreserved) :
    equal? a.presented b.presented = equal? a b := by
  have hsame := sameTerm_presented ha hb
  cases a <;> cases b <;> first
    | rfl
    | exact congrArg some hsame

/-! ## Functions -/

theorem field?_presented (kinds : List TimestampKind) (read : CalendarFields → Value) (v : Value) :
    BuiltIn.field? kinds read v.presented = BuiltIn.field? kinds read v :=
  apply_presented (fun _ _ => rfl) v

theorem mapM_worded?_presented (vs : List Value) :
    (vs.map presented).mapM worded? = vs.mapM worded? := by
  rw [List.mapM_map]
  simp only [Function.comp_def, worded?_presented]

theorem concat?_presented (vs : List Value) : concat? (vs.map presented) = concat? vs := by
  cases vs with
  | nil => rfl
  | cons v rest =>
    have hparts := mapM_worded?_presented (v :: rest)
    rw [List.map_cons] at hparts ⊢
    simp only [concat?, hparts]

@[simp] theorem together?_presented (a b : Value) :
    together? a.presented b.presented = together? a b := by
  simp [together?]

theorem substring?_presented (v start : Value) (length : Option Value) :
    substring? v.presented start.presented (length.map presented) = substring? v start length := by
  unfold substring?
  rw [worded?_presented]
  cases start <;> cases length with
  | none => rfl
  | some n => cases n <;> rfl

@[simp] theorem flagText?_presented (flags : Option Value) :
    flagText? (flags.map presented) = flagText? flags := by
  cases flags <;> simp [flagText?]

theorem matches?_presented (v pattern : Value) (flags : Option Value) :
    matches? v.presented pattern.presented (flags.map presented) = matches? v pattern flags := by
  simp [matches?]

theorem replace?_presented (v pattern replacement : Value) (flags : Option Value) :
    replace? v.presented pattern.presented replacement.presented (flags.map presented) =
      replace? v pattern replacement flags := by
  simp [replace?]

end Value

namespace BuiltIn

/-- The functions with a value that tells IRIs from blank nodes. -/
def reveals (f : BuiltIn) : Bool := [str, encodeForUri, iri, isIri, isBlank, strDatatype].contains f

theorem textFunction?_presented {f : BuiltIn} (hf : f.reveals = false) (vs : List Value) :
    textFunction? f (vs.map Value.presented) = textFunction? f vs := by
  by_cases hconcat : f = concat
  · subst hconcat
    exact Value.concat?_presented vs
  -- the others take four arguments at most
  rcases vs with _ | ⟨a, _ | ⟨b, _ | ⟨c, _ | ⟨d, _ | ⟨e, rest⟩⟩⟩⟩⟩ <;> cases f <;> first
    | rfl
    | exact absurd rfl hconcat
    | exact absurd hf (by decide)
    | exact Value.substring?_presented a b none
    | exact Value.substring?_presented a b (some c)
    | exact Value.matches?_presented a b none
    | exact Value.matches?_presented a b (some c)
    | exact Value.replace?_presented a b c none
    | exact Value.replace?_presented a b c (some d)
    | simp [textFunction?, Value.length?, Value.mapText?, Value.contains?, Value.startsWith?,
        Value.endsWith?, Value.before?, Value.after?, Value.digest?]

theorem timeFunction?_presented (f : BuiltIn) (vs : List Value) :
    timeFunction? f (vs.map Value.presented) = timeFunction? f vs := by
  rcases vs with _ | ⟨a, _ | ⟨b, _ | ⟨c, rest⟩⟩⟩ <;> cases f <;> first
    | rfl
    | exact Value.field?_presented _ _ a
    | (cases a <;> rfl)
    | (cases a <;> cases b <;> rfl)

theorem numberFunction?_presented (f : BuiltIn) (v : Value) :
    numberFunction? f v.presented = numberFunction? f v :=
  Value.apply_presented (fun _ _ => by cases f <;> rfl) v

@[simp] theorem makeBlank?_presented (v : Value) : makeBlank? v.presented = makeBlank? v :=
  Value.apply_presented (fun _ _ => rfl) v

theorem termFunction?_presented (c : FunctionContext) {f : BuiltIn} (hf : f.reveals = false)
    (vs : List Value) : termFunction? c f (vs.map Value.presented) = termFunction? c f vs := by
  rcases vs with _ | ⟨a, _ | ⟨b, _ | ⟨c, rest⟩⟩⟩ <;> cases f <;> first
    | rfl
    | exact absurd hf (by decide)
    | simp [termFunction?, Value.withLanguage?, Value.langMatches?]

theorem value?_presented (c : FunctionContext) {f : BuiltIn} (hf : f.reveals = false)
    (vs : List Value) : f.value? c (vs.map Value.presented) = f.value? c vs := by
  unfold value?
  rw [textFunction?_presented hf, timeFunction?_presented, termFunction?_presented c hf]
  rcases vs with _ | ⟨a, _ | ⟨b, rest⟩⟩
  · rfl
  · simp only [List.map_cons, List.map_nil, numberFunction?_presented]
  · rfl

theorem value?_chance {f : BuiltIn} (hf : Semantics.drawsOnChance f = false) (c : FunctionContext)
    (chance : Chance) (vs : List Value) : f.value? { c with chance := chance } vs = f.value? c vs := by
  have hterm : termFunction? { c with chance := chance } f vs = termFunction? c f vs := by
    rcases vs with _ | ⟨a, _ | ⟨b, _ | ⟨d, rest⟩⟩⟩ <;> cases f <;> first
      | exact absurd hf (by decide)
      | rfl
      | (cases a <;> rfl)
  unfold value?
  rw [hterm]

/-- Without chance no function makes a blank node. -/
theorem map_presented_value? {f : BuiltIn} (hf : Semantics.drawsOnChance f = false)
    (c : FunctionContext) (vs : List Value) :
    (f.value? c vs).map Value.presented = f.value? c vs := by
  cases hterm : f.makesTerm with
  | false => exact (literalOnly_value? c hterm vs).map_presented
  | true =>
    cases f with
    | iri =>
      change (termFunction? c .iri vs).map Value.presented = termFunction? c .iri vs
      rcases vs with _ | ⟨v, _ | ⟨w, rest⟩⟩
      · rfl
      · cases v with
        | string text => exact (Option.map_map ..).trans rfl
        | _ => rfl
      · rfl
    | datatype =>
      change (termFunction? c .datatype vs).map Value.presented = termFunction? c .datatype vs
      rcases vs with _ | ⟨v, _ | ⟨w, rest⟩⟩
      · rfl
      · exact (Option.map_map ..).trans rfl
      · rfl
    | bnode | uuid => cases hf
    | _ => cases hterm

/-- A function that does not draw on chance reveals something exactly when it has another value on
some arguments as a table holds them. -/
theorem reveals_iff {f : BuiltIn} (hf : Semantics.drawsOnChance f = false) : f.reveals = true ↔
    ∃ (c : FunctionContext) (vs : List Value), f.value? c (vs.map Value.presented) ≠ f.value? c vs := by
  constructor
  · intro h
    cases f with
    | str | encodeForUri | iri | isIri | isBlank =>
      refine ⟨default, [.blank ""], fun hsame => ?_⟩
      cases hsame
    | strDatatype =>
      refine ⟨default, [.string "", .blank ""], fun hsame => ?_⟩
      cases hsame
    | _ => exact absurd h (by decide)
  · rintro ⟨c, vs, hne⟩
    by_contra h
    exact hne (value?_presented c (Bool.eq_false_iff.mpr h) vs)

end BuiltIn

/-! ## Constructors of datatypes -/

theorem Value.constructors_presented : ∀ e ∈ constructors, e.1 ≠ "string" →
    ∀ v : Value, e.2 v.presented = e.2 v := by
  simp only [constructors, List.forall_mem_cons]
  refine ⟨fun h => absurd rfl h, ?_⟩
  simp only [List.not_mem_nil, false_imp_iff, implies_true, and_true]
  refine ⟨?_, ?_, ?_, ?_, ?_, ?_, ?_, ?_, ?_, ?_, ?_, ?_, ?_, ?_, ?_, ?_⟩ <;>
    exact fun _ v => apply_presented (fun _ _ => rfl) v

namespace Function

def reveals : Function → Bool
  | builtIn f => f.reveals
  | custom f => Value.xsdName? f == some "string"

variable {s : Surroundings} {f : Function}

theorem presented_of_constructor? {i : Iri} {construct : Value → Option Value}
    (h : Value.constructor? i = some construct) (hi : (custom i).reveals = false) (v : Value) :
    construct v.presented = construct v := by
  obtain ⟨name, hname, hlookup⟩ := Option.bind_eq_some_iff.mp h
  have hne : name ≠ "string" := by
    rintro rfl
    simp [reveals, hname] at hi
  obtain ⟨before, after, hentries, _⟩ := List.lookup_eq_some_iff.mp hlookup
  exact Value.constructors_presented (name, construct)
    (hentries ▸ List.mem_append_right _ List.mem_cons_self) hne v

theorem mapM_presented (arguments : List (Option Value)) :
    (arguments.map (Option.map Value.presented)).mapM id =
      (arguments.mapM id).map (List.map Value.presented) := by
  induction arguments with
  | nil => rfl
  | cons a rest ih =>
    rw [List.map_cons, List.mapM_cons, List.mapM_cons, ih]
    cases a with
    | none => rfl
    | some v => cases rest.mapM id <;> rfl

theorem map_presented_eq {arguments : List (Option Value)}
    (h : ∀ label, some (Value.blank label) ∉ arguments) :
    arguments.map (Option.map Value.presented) = arguments := by
  refine (List.map_congr_left fun a ha => ?_).trans (List.map_id arguments)
  cases a with
  | none => rfl
  | some v =>
    cases v with
    | blank label => exact absurd ha (h label)
    | _ => rfl

theorem map_presented_value? (hf : (Semantics.standard s).known f = true) (c : FunctionContext)
    (arguments : List (Option Value)) :
    (f.value? c arguments).map Value.presented = f.value? c arguments := by
  unfold value?
  cases arguments.mapM id with
  | none => rfl
  | some vs =>
    cases f with
    | builtIn f => exact BuiltIn.map_presented_value? (Bool.not_eq_true' _ |>.mp hf) c vs
    | custom i =>
      refine Value.LiteralOnly.map_presented ?_
      dsimp only [Option.bind_eq_bind, Option.bind_some]
      split
      · exact Value.literalOnly_of_constructor? ‹_› _
      · exact Value.literalOnly_none

theorem value?_chance (hf : (Semantics.standard s).known f = true) (c : FunctionContext)
    (chance : Chance) (arguments : List (Option Value)) :
    f.value? { c with chance := chance } arguments = f.value? c arguments := by
  cases f with
  | builtIn f =>
    exact congrArg (Option.bind (arguments.mapM id)) <| funext fun vs =>
      BuiltIn.value?_chance (Bool.not_eq_true' _ |>.mp hf) c chance vs
  | custom i => rw [value?, value?]

theorem value?_map_presented (c : FunctionContext) (hf : f.reveals = false)
    (arguments : List (Option Value)) :
    f.value? c (arguments.map (Option.map Value.presented)) = f.value? c arguments := by
  unfold value?
  rw [mapM_presented]
  cases arguments.mapM id with
  | none => rfl
  | some vs =>
    cases f with
    | builtIn f => exact BuiltIn.value?_presented c hf vs
    | custom i =>
      simp only [Option.map_some, Option.bind_eq_bind, Option.bind_some]
      cases hconstruct : Value.constructor? i with
      | none => rfl
      | some construct =>
        rcases vs with _ | ⟨v, _ | ⟨w, rest⟩⟩
        · rfl
        · exact presented_of_constructor? hconstruct hf v
        · rfl

/-- A call that reveals nothing has the value on the arguments as a table holds them, whatever the
chance. -/
theorem value?_presented (hf : (Semantics.standard s).known f = true) (c : FunctionContext)
    (chance : Chance) {arguments : List (Option Value)}
    (h : f.reveals = true → ∀ label, some (Value.blank label) ∉ arguments) :
    f.value? { c with chance := chance } (arguments.map (Option.map Value.presented)) =
      (f.value? c arguments).map Value.presented := by
  rw [value?_chance hf, map_presented_value? hf]
  cases hreveals : f.reveals with
  | true => rw [map_presented_eq (h hreveals)]
  | false => exact value?_map_presented c hreveals arguments

end Function

/-! ## Operators -/

section Operators
variable {a b : Option Value}

/-- What an expression may be worth, if it is anything. -/
def Value.AllUnreserved (o : Option Value) : Prop := ∀ v ∈ o, v.Unreserved

theorem BinaryOp.value?_presented (op : BinaryOp) (ha : Value.AllUnreserved a)
    (hb : Value.AllUnreserved b) :
    op.value? (a.map Value.presented) (b.map Value.presented) = op.value? a b := by
  cases a with
  | none => cases op <;> cases b <;> simp [BinaryOp.value?]
  | some v =>
    cases b with
    | none => cases op <;> simp [BinaryOp.value?]
    | some w =>
      have hv := ha v rfl
      have hw := hb w rfl
      cases op <;> simp [BinaryOp.value?, comparison?, Value.equal?_presented hv hw,
        Value.sameTerm_presented hv hw, Value.compare?_presented hv hw, Value.add?_presented,
        Value.subtract?_presented, Value.multiply?_presented, Value.divide?_presented]

theorem UnaryOp.value?_presented (op : UnaryOp) (v : Value) : op.value? v.presented = op.value? v :=
  Value.apply_presented (fun _ _ => by cases op <;> rfl) v

theorem oneOf?_presented {candidates : List (Option Value)} (ha : Value.AllUnreserved a)
    (hcandidates : ∀ c ∈ candidates, Value.AllUnreserved c) :
    oneOf? (a.map Value.presented) (candidates.map (Option.map Value.presented)) =
      oneOf? a candidates := by
  cases candidates with
  | nil => cases a <;> simp [oneOf?]
  | cons c rest =>
    have htruths : ((c :: rest).map (Option.map Value.presented)).map
        (fun b => (do Value.equal? (← a.map Value.presented) (← b))) =
          (c :: rest).map fun b => (do Value.equal? (← a) (← b)) := by
      rw [List.map_map]
      refine List.map_congr_left fun b hb => ?_
      cases a with
      | none => rfl
      | some v =>
        cases b with
        | none => rfl
        | some w => exact Value.equal?_presented (ha v rfl) (hcandidates _ hb w rfl)
    unfold oneOf?
    rw [htruths]
    rfl

end Operators

end SparqlBind
