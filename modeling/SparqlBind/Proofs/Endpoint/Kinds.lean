import Mathlib.Tactic.TFAE
import SparqlBind.Negotiation

/-!
# Names, labels and kinds

The label of an operation is its name with spaces put in at boundaries, the places between a word
character and a capital. Of two adjacent boundaries at most one gets a space, since the character
between them belongs to one match only; so all boundaries get one exactly in the names without adjacent
ones. The spaces can be taken out again, which tells the names of every kind of query: a label with one
space comes from itself and from the name without that space.
-/

namespace SparqlBind

/-! ## Places -/

/-- The place behind the `i`-th character is between a word character and a capital. -/
def isBoundary (text : List Char) (i : Nat) : Bool :=
  text[i]?.any CharClass.isWord && text[i + 1]?.any CharClass.isCapital

/-- A boundary is separated unless the place before it is. -/
def isSeparated (text : List Char) : Nat → Bool
  | 0 => isBoundary text 0
  | i + 1 => isBoundary text (i + 1) && !isSeparated text i

/-- The text with a space at each of the chosen places. -/
def spaced (chosen : Nat → Bool) : List Char → List Char
  | [] => []
  | c :: rest =>
    if chosen 0 then c :: ' ' :: spaced (fun i => chosen (i + 1)) rest
    else c :: spaced (fun i => chosen (i + 1)) rest

/-- Takes out the characters that were put in at the chosen places. -/
def unspaced (chosen : Nat → Bool) : List Char → List Char
  | c :: d :: rest =>
    if chosen 0 then c :: unspaced (fun i => chosen (i + 1)) rest
    else c :: unspaced (fun i => chosen (i + 1)) (d :: rest)
  | rest => rest

section Places
variable {text : List Char} {chosen : Nat → Bool} {c : Char} {i : Nat}

theorem isBoundary_cons_zero (c : Char) (text : List Char) :
    isBoundary (c :: text) 0 = (CharClass.isWord c && text.head?.any CharClass.isCapital) := by
  simp [isBoundary, List.head?_eq_getElem?]

theorem isBoundary_cons_succ (c : Char) (text : List Char) (i : Nat) :
    isBoundary (c :: text) (i + 1) = isBoundary text i := rfl

theorem exists_isBoundary_cons (c : Char) (text : List Char) :
    (∃ i, isBoundary (c :: text) i = true) ↔
      (CharClass.isWord c && text.head?.any CharClass.isCapital) = true ∨
        ∃ i, isBoundary text i = true := by
  rw [← isBoundary_cons_zero]
  exact (Nat.or_exists_add_one (p := fun i => isBoundary (c :: text) i = true)).symm

theorem isBoundary_drop (text : List Char) (n i : Nat) :
    isBoundary (text.drop n) i = isBoundary text (n + i) := by
  simp [isBoundary, List.getElem?_drop, Nat.add_assoc]

theorem lt_length_of_isBoundary (h : isBoundary text i = true) : i < text.length := by
  refine Nat.lt_of_not_le fun hlen => ?_
  simp [isBoundary, List.getElem?_eq_none hlen] at h

theorem isBoundary_of_isSeparated (h : isSeparated text i = true) : isBoundary text i = true := by
  cases i with
  | zero => exact h
  | succ i => exact (Bool.and_eq_true_iff.mp h).1

/-- Behind a place that is not separated everything starts anew. -/
theorem isSeparated_add {n : Nat} (h : isSeparated text n = false) (i : Nat) :
    isSeparated text (i + n + 1) = isSeparated (text.drop (n + 1)) i := by
  induction i with
  | zero => simp [isSeparated, isBoundary_drop, h]
  | succ i ih =>
    have hplace : i + 1 + n + 1 = i + n + 1 + 1 := by omega
    have hdrop : isBoundary (text.drop (n + 1)) (i + 1) = isBoundary text (i + n + 1 + 1) := by
      rw [isBoundary_drop]
      congr 1
      omega
    rw [hplace, isSeparated, ih, isSeparated, hdrop]

/-- One of two adjacent boundaries is not separated, and a boundary that is not comes right behind one
that is. -/
theorem exists_adjacent_iff : (∃ i, isBoundary text i = true ∧ isSeparated text i = false) ↔
    ∃ i, isBoundary text i = true ∧ isBoundary text (i + 1) = true := by
  constructor
  · rintro ⟨i, hi, hseparated⟩
    cases i with
    | zero => exact absurd (hi.symm.trans hseparated) (by decide)
    | succ i =>
      have hbefore : isSeparated text i = true := by simpa [isSeparated, hi] using hseparated
      exact ⟨i, isBoundary_of_isSeparated hbefore, hi⟩
  · rintro ⟨i, hi, hnext⟩
    cases hseparated : isSeparated text i with
    | false => exact ⟨i, hi, hseparated⟩
    | true => exact ⟨i + 1, hnext, by simp [isSeparated, hseparated]⟩

/-! ## Putting spaces in -/

theorem head?_spaced : (spaced chosen text).head? = text.head? := by
  cases text with
  | nil => rfl
  | cons c rest => unfold spaced; split <;> rfl

theorem sublist_spaced (chosen : Nat → Bool) (text : List Char) :
    text.Sublist (spaced chosen text) := by
  induction text generalizing chosen with
  | nil => exact List.nil_sublist _
  | cons c rest ih =>
    unfold spaced
    split
    · exact ((ih _).cons _).cons_cons _
    · exact (ih _).cons_cons _

theorem filter_spaced (chosen : Nat → Bool) (text : List Char) :
    (spaced chosen text).filter (· ≠ ' ') = text.filter (· ≠ ' ') := by
  induction text generalizing chosen with
  | nil => rfl
  | cons c rest ih =>
    unfold spaced
    split
    · have hspace : (' ' :: spaced (fun i => chosen (i + 1)) rest).filter (· ≠ ' ') =
          rest.filter (· ≠ ' ') := ih _
      rw [List.filter_cons, hspace, List.filter_cons]
    · rw [List.filter_cons, ih, List.filter_cons]

theorem unspaced_spaced (chosen : Nat → Bool) (text : List Char) :
    unspaced chosen (spaced chosen text) = text := by
  induction text generalizing chosen with
  | nil => rfl
  | cons c rest ih =>
    have hrest := ih fun i => chosen (i + 1)
    unfold spaced
    by_cases h : chosen 0
    · rw [if_pos h, unspaced, if_pos h, hrest]
    · rw [if_neg h]
      cases hspaced : spaced (fun i => chosen (i + 1)) rest with
      | nil =>
        rw [hspaced] at hrest
        exact congrArg (c :: ·) hrest
      | cons d tail => rw [unspaced, if_neg h, ← hspaced, hrest]

theorem spaced_of_none (h : ∀ i, chosen i = false) : spaced chosen text = text := by
  induction text generalizing chosen with
  | nil => rfl
  | cons c rest ih => simp [spaced, h 0, ih fun i => h (i + 1)]

theorem not_chosen_of_spaced_eq_self (h : spaced chosen text = text) (hi : i < text.length) :
    chosen i = false := by
  induction text generalizing chosen i with
  | nil => cases hi
  | cons c rest ih =>
    unfold spaced at h
    split at h
    · have hlength := (sublist_spaced (fun i => chosen (i + 1)) rest).length_le
      have hlonger := congrArg List.length h
      simp only [List.length_cons] at hlonger
      omega
    · next hfirst =>
      cases i with
      | zero => simpa using hfirst
      | succ i =>
        have hrest := (List.cons.inj h).2
        exact @ih (fun i => chosen (i + 1)) i hrest (Nat.lt_of_succ_lt_succ hi)

/-- The boundaries of a spaced text are those at which no space was put. -/
theorem exists_isBoundary_spaced : (∃ i, isBoundary (spaced chosen text) i = true) ↔
    ∃ i, isBoundary text i = true ∧ chosen i = false := by
  induction text generalizing chosen with
  | nil => simp [spaced, isBoundary]
  | cons c rest ih =>
    have hrest := @ih fun i => chosen (i + 1)
    have hspace : CharClass.isWord ' ' = false ∧ CharClass.isCapital ' ' = false := by decide
    rw [← Nat.or_exists_add_one (p := fun i => isBoundary (c :: rest) i = true ∧ chosen i = false),
      spaced]
    simp only [isBoundary_cons_succ]
    by_cases h : chosen 0
    · rw [if_pos h, exists_isBoundary_cons, exists_isBoundary_cons, hrest]
      simp [hspace, h]
    · rw [if_neg h, exists_isBoundary_cons, head?_spaced, ← isBoundary_cons_zero, hrest]
      simp [h]

end Places

/-! ## Separating capitals -/

theorem separateCapitals_eq_spaced (text : List Char) :
    separateCapitals text = spaced (isSeparated text) text := by
  fun_induction separateCapitals text with
  | case1 a b rest h ih =>
    have hfirst : isSeparated (a :: b :: rest) 0 = true := h
    have hsecond : isSeparated (a :: b :: rest) 1 = false := by
      rw [isSeparated, hfirst, Bool.not_true, Bool.and_false]
    have hrest : (fun i => isSeparated (a :: b :: rest) (i + 1 + 1)) = isSeparated rest :=
      funext (isSeparated_add hsecond)
    simp only [spaced, hfirst, hsecond, hrest, ih]
    simp
  | case2 a b rest h ih =>
    have hfirst : isSeparated (a :: b :: rest) 0 = false := Bool.eq_false_iff.mpr h
    have hrest : (fun i => isSeparated (a :: b :: rest) (i + 1)) = isSeparated (b :: rest) :=
      funext (isSeparated_add hfirst)
    rw [spaced, hfirst, hrest, ih]
    rfl
  | case3 text h =>
    cases text with
    | nil => rfl
    | cons c rest =>
      cases rest with
      | nil => simp [spaced, isSeparated, isBoundary]
      | cons d rest => exact absurd rfl (h c d rest)

/-- A text in which nothing is separated has no boundary. -/
theorem separateCapitals_eq_self_iff {text : List Char} :
    separateCapitals text = text ↔ ∀ i, isBoundary text i = false := by
  rw [separateCapitals_eq_spaced]
  constructor
  · refine fun h i => Bool.eq_false_iff.mpr fun hi => ?_
    obtain ⟨j, hj⟩ : ∃ j, isSeparated text j = true := by
      cases i with
      | zero => exact ⟨0, hi⟩
      | succ i =>
        cases hbefore : isSeparated text i with
        | true => exact ⟨i, hbefore⟩
        | false => exact ⟨i + 1, by simp [isSeparated, hi, hbefore]⟩
    have hlength := lt_length_of_isBoundary (isBoundary_of_isSeparated hj)
    exact absurd (hj.symm.trans (not_chosen_of_spaced_eq_self h hlength)) (by decide)
  · intro h
    refine spaced_of_none fun i => Bool.eq_false_iff.mpr fun hi => ?_
    exact absurd ((isBoundary_of_isSeparated hi).symm.trans (h i)) (by decide)

/-- Adjacent boundaries are what the scan from the left overlooks. -/
theorem separateCapitals_tfae (text : List Char) :
    [∀ i, isBoundary text i = true → isBoundary text (i + 1) = false,
      separateCapitals text = spaced (isBoundary text) text,
      ∀ i, isBoundary (separateCapitals text) i = false,
      separateCapitals (separateCapitals text) = separateCapitals text].TFAE := by
  tfae_have 1 → 2 := by
    intro h
    rw [separateCapitals_eq_spaced]
    congr 1
    funext i
    cases i with
    | zero => rfl
    | succ i =>
      cases hi : isBoundary text i with
      | true => simp [isSeparated, h i hi]
      | false =>
        have hbefore : isSeparated text i = false :=
          Bool.eq_false_iff.mpr fun hs => by simp [isBoundary_of_isSeparated hs] at hi
        simp [isSeparated, hbefore]
  tfae_have 2 → 3 := by
    refine fun h i => Bool.eq_false_iff.mpr fun hi => ?_
    rw [h] at hi
    obtain ⟨j, hj, hchosen⟩ := exists_isBoundary_spaced.mp ⟨i, hi⟩
    exact absurd (hj.symm.trans hchosen) (by decide)
  tfae_have 3 → 1 := by
    refine fun h i hi => Bool.eq_false_iff.mpr fun hnext => ?_
    obtain ⟨j, hj⟩ := exists_isBoundary_spaced.mpr (exists_adjacent_iff.mpr ⟨i, hi, hnext⟩)
    rw [← separateCapitals_eq_spaced] at hj
    exact absurd (hj.symm.trans (h j)) (by decide)
  tfae_have 3 ↔ 4 := separateCapitals_eq_self_iff.symm
  tfae_finish

namespace OperationKind

theorem label_ofLabel (label : String) : (ofLabel label).label = label := by
  unfold ofLabel
  split <;> rfl

theorem toList_label (name : String) :
    (ofAlgebraName name).label.toList = separateCapitals name.toList := by
  rw [ofAlgebraName, label_ofLabel, String.toList_ofList]

/-- The label is the name with a space at every boundary that does not come right behind another space.
It is the name with a space at every boundary, has no boundary itself and is its own label exactly if
the name has no adjacent boundaries. -/
theorem label_ofAlgebraName (name : String) :
    (ofAlgebraName name).label = String.ofList (spaced (isSeparated name.toList) name.toList) ∧
    [∀ i, isBoundary name.toList i = true → isBoundary name.toList (i + 1) = false,
      (ofAlgebraName name).label = String.ofList (spaced (isBoundary name.toList) name.toList),
      ∀ i, isBoundary (ofAlgebraName name).label.toList i = false,
      (ofAlgebraName (ofAlgebraName name).label).label = (ofAlgebraName name).label].TFAE := by
  have htfae := separateCapitals_tfae name.toList
  refine ⟨?_, ?_⟩
  · rw [← separateCapitals_eq_spaced, ← toList_label, String.ofList_toList]
  · simpa only [← String.toList_inj, toList_label, String.toList_ofList] using htfae

/-- In a run of capitals every other place is overlooked, and the label changes when it is made anew. -/
theorem label_ofAlgebraName_adjacent :
    (ofAlgebraName "JSONQuery").label = "J SO NQuery" ∧
    String.ofList (spaced (isBoundary "JSONQuery".toList) "JSONQuery".toList) = "J S O N Query" ∧
    isBoundary "J SO NQuery".toList 2 = true ∧
    (ofAlgebraName "J SO NQuery").label = "J S O N Query" := by
  decide

/-! ## Kinds of query -/

/-- The kinds of query with the words that their names begin with. -/
def words : List (OperationKind × String) :=
  [(select, "Select"), (construct, "Construct"), (ask, "Ask"), (describe, "Describe")]

/-- A text with one space is separated from itself or from its letters without the space. -/
theorem eq_or_eq_filter_of_separateCapitals {text label : List Char} (hlabel : label.count ' ' = 1)
    (h : separateCapitals text = label) : text = label ∨ text = label.filter (· ≠ ' ') := by
  obtain rfl := h
  rw [separateCapitals_eq_spaced] at hlabel ⊢
  have hfilter := filter_spaced (isSeparated text) text
  by_cases hmem : ' ' ∈ text
  · have hsublist := sublist_spaced (isSeparated text) text
    refine .inl (hsublist.eq_of_length_le ?_)
    have hcount : 0 < text.count ' ' := List.count_pos_iff.mpr hmem
    have hlength : ∀ t : List Char, t.length = t.count ' ' + (t.filter (· ≠ ' ')).length := by
      intro t
      rw [List.count, ← List.countP_eq_length_filter, List.length_eq_countP_add_countP (· == ' ')]
      simp
    rw [hlength, hlength text, hfilter]
    omega
  · right
    rw [hfilter, List.filter_eq_self.mpr]
    intro c hc
    simpa using ne_of_mem_of_not_mem hc hmem

theorem ofAlgebraName_eq_iff {kind : OperationKind} {word : String} (h : (kind, word) ∈ words)
    (name : String) :
    ofAlgebraName name = kind ↔ name = word ++ "Query" ∨ name = word ++ " Query" := by
  have hnames : ∀ k ∈ words, ofAlgebraName (k.2 ++ "Query") = k.1 ∧
      ofAlgebraName (k.2 ++ " Query") = k.1 := by decide
  have hlabels : ∀ k ∈ words, k.1.label.toList.count ' ' = 1 ∧ k.1.label = k.2 ++ " Query" ∧
      String.ofList (k.1.label.toList.filter (· ≠ ' ')) = k.2 ++ "Query" := by decide
  obtain ⟨hone, hspace, hnone⟩ := hlabels _ h
  constructor
  · rintro rfl
    rw [← hnone, ← hspace, ← String.toList_inj, ← String.toList_inj, String.toList_ofList]
    exact (eq_or_eq_filter_of_separateCapitals hone (toList_label name).symm).symm
  · rintro (rfl | rfl)
    · exact (hnames _ h).1
    · exact (hnames _ h).2

theorem mem_words_or_other (kind : OperationKind) :
    (∃ word, (kind, word) ∈ words) ∨ kind = other kind.label := by
  cases kind with
  | other label => exact .inr rfl
  | select => exact .inl ⟨"Select", by decide⟩
  | construct => exact .inl ⟨"Construct", by decide⟩
  | ask => exact .inl ⟨"Ask", by decide⟩
  | describe => exact .inl ⟨"Describe", by decide⟩

theorem eq_of_ofAlgebraName_eq {first second : String} (hfirst : ' ' ∉ first.toList)
    (hsecond : ' ' ∉ second.toList) (h : ofAlgebraName first = ofAlgebraName second) :
    first = second := by
  have hletters : ∀ name : String, ' ' ∉ name.toList →
      (ofAlgebraName name).label.toList.filter (· ≠ ' ') = name.toList := by
    intro name hname
    rw [toList_label, separateCapitals_eq_spaced, filter_spaced, List.filter_eq_self]
    intro c hc
    simpa using ne_of_mem_of_not_mem hc hname
  rw [← String.toList_inj, ← hletters first hfirst, ← hletters second hsecond, h]

/-- The kinds of query have two names each, every other name has a kind of its own label from which the
spaces can be taken out again, and answers are only represented as graphs under the names of a
construction. -/
theorem ofAlgebraName_exact (name : String) :
    (∀ kind word, (kind, word) ∈ words →
      (ofAlgebraName name = kind ↔ name = word ++ "Query" ∨ name = word ++ " Query")) ∧
    ((∀ kind word, (kind, word) ∈ words →
        name ≠ word ++ "Query" ∧ name ≠ word ++ " Query") →
      ∃ label, ofAlgebraName name = other label ∧
        label.toList = spaced (isSeparated name.toList) name.toList ∧
        unspaced (isSeparated name.toList) label.toList = name.toList) ∧
    (∀ name', ' ' ∉ name.toList → ' ' ∉ name'.toList → name ≠ name' →
      ofAlgebraName name ≠ ofAlgebraName name') ∧
    ∀ accept, negotiate accept (ofAlgebraName name) =
      let chosen := (accept.bind representation?).getD defaultRepresentation
      if name = "ConstructQuery" ∨ name = "Construct Query" then graphRepresentation chosen
      else chosen := by
  refine ⟨fun kind word h => ofAlgebraName_eq_iff h name, fun h => ?_, fun name' hname hname' => ?_,
    fun accept => ?_⟩
  · have hother : ofAlgebraName name = other (ofAlgebraName name).label :=
      (mem_words_or_other (ofAlgebraName name)).resolve_left fun ⟨word, hword⟩ =>
        ((ofAlgebraName_eq_iff hword name).mp rfl).elim (h _ _ hword).1 (h _ _ hword).2
    have hlabel : (ofAlgebraName name).label.toList = spaced (isSeparated name.toList) name.toList := by
      rw [toList_label, separateCapitals_eq_spaced]
    exact ⟨_, hother, hlabel, by rw [hlabel, unspaced_spaced]⟩
  · exact mt (eq_of_ofAlgebraName_eq hname hname')
  · have hword : (construct, "Construct") ∈ words := by decide
    have hconstruct := ofAlgebraName_eq_iff hword name
    have hnames : "Construct" ++ "Query" = "ConstructQuery" ∧
        "Construct" ++ " Query" = "Construct Query" := by decide
    rw [hnames.1, hnames.2] at hconstruct
    unfold negotiate
    simp only [hconstruct]

theorem ofAlgebraName_exact_insertData :
    (ofAlgebraName "ConstructQuery" = construct ∧ ofAlgebraName "Construct Query" = construct) ∧
    (∃ label, ofAlgebraName "InsertDataQuery" = other label ∧
      label.toList = spaced (isSeparated "InsertDataQuery".toList) "InsertDataQuery".toList ∧
      unspaced (isSeparated "InsertDataQuery".toList) label.toList = "InsertDataQuery".toList) ∧
    ofAlgebraName "InsertDataQuery" ≠ ofAlgebraName "InsertdataQuery" := by
  refine ⟨⟨?_, ?_⟩, ?_, ?_⟩
  · exact ((ofAlgebraName_exact "ConstructQuery").1 construct "Construct" (by decide)).mpr (by decide)
  · exact ((ofAlgebraName_exact "Construct Query").1 construct "Construct" (by decide)).mpr (by decide)
  · refine (ofAlgebraName_exact "InsertDataQuery").2.1 fun kind word h => ?_
    have hnames : ∀ k ∈ words, "InsertDataQuery" ≠ k.2 ++ "Query" ∧
        "InsertDataQuery" ≠ k.2 ++ " Query" := by decide
    exact hnames _ h
  · exact (ofAlgebraName_exact "InsertDataQuery").2.2.1 "InsertdataQuery" (by decide) (by decide)
      (by decide)

end OperationKind

end SparqlBind
