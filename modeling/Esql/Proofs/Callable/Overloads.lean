import Esql.Proofs.Callable.Indexed
import Esql.Proofs.Callable.Steady

/-!
# Overloads with different results

A few callables have signatures for the same number of arguments that yield different results: sums,
which also shift dates by intervals, groups of dates or of numbers, and the extent of shapes. What
is left of the types of a call decides between them, so these callables are steady as well, and with
them the whole catalog.
-/

namespace Esql

/-- A parameter accepts the argument, or nothing is known of its type. -/
def ParamType.admits (param : ParamType) (given : Given) : Bool :=
  given.type?.all fun type => param.accepts type given.quoted

theorem ParamType.admits_of_eq {param : ParamType} {vague exact : Given}
    (vaguer : vague.Vaguer exact) (same : vague.type? = exact.type?) :
    param.admits vague = param.admits exact := by
  rw [admits, admits, same, vaguer.quoted]

theorem ParamType.admits_vaguer {param : ParamType} (blind : param.isBlind = true)
    {vague exact : Given} (vaguer : vague.Vaguer exact) (known : vague.type?.isSome = true) :
    param.admits vague = param.admits exact := by
  obtain ⟨type, typed⟩ := Option.isSome_iff_exists.mp known
  obtain ⟨other, same, alike⟩ := vaguer.typed type typed
  rw [admits, admits, typed, same, Option.all_some, Option.all_some, vaguer.quoted,
    accepts_alike blind alike]

namespace Signature

theorem rejects_of_param? {signature : Signature} {position : Nat} {param : Parameter}
    (found : signature.param? position = some param) (given : Given) :
    signature.rejects position given = !param.type.admits given := by
  rw [rejects, found, ParamType.admits]
  cases given.type? <;> rfl

theorem accepts_one {param : Parameter} {returns : ReturnRule} {license? : Option License}
    (required : param.optional = false) {args : List Given} :
    accepts ⟨[param], returns, false, license?⟩ args = true ↔
      ∃ given, args = [given] ∧ param.type.admits given = true := by
  match args with
  | [] => simp [accepts, fitsArity, minArgs, required]
  | [given] =>
      simp [accepts, fitsArity, minArgs, maxArgs?, required, firstMismatch?, firstMismatch?From,
        rejects_of_param? (show (Signature.mk [param] returns false license?).param? 0 = some param
          from rfl)]
  | _ :: _ :: _ => simp [accepts, fitsArity, maxArgs?]

theorem accepts_two {first second : Parameter} {returns : ReturnRule}
    (required : first.optional = false ∧ second.optional = false) {args : List Given} :
    accepts ⟨[first, second], returns, false, none⟩ args = true ↔
      ∃ left right, args = [left, right] ∧ first.type.admits left = true ∧
        second.type.admits right = true := by
  match args with
  | [] => simp [accepts, fitsArity, minArgs, required]
  | [_] => simp [accepts, fitsArity, minArgs, required]
  | [left, right] =>
      simp [accepts, fitsArity, minArgs, maxArgs?, required, firstMismatch?, firstMismatch?From,
        rejects_of_param? (show (Signature.mk [first, second] returns false none).param? 0 =
          some first from rfl),
        rejects_of_param? (show (Signature.mk [first, second] returns false none).param? 1 =
          some second from rfl)]
      cases first.type.admits left <;> cases second.type.admits right <;> simp
  | _ :: _ :: _ :: _ => simp [accepts, fitsArity, maxArgs?]

end Signature

namespace Callable

open Catalog

variable {vagues exacts args : List Given}

/-! ## Sums -/

/-- A type of a date and of an interval at once is a number as well: it is that of null. -/
theorem number_of_date_of_interval {given : Given}
    (text : given.quoted = true → ∀ type ∈ given.type?, type = .keyword)
    (date : ParamType.date.admits given = true)
    (interval : ParamType.interval.admits given = true) :
    ParamType.number.admits given = true := by
  obtain ⟨type?, quoted, constant, value?⟩ := given
  cases type? with
  | none => rfl
  | some type =>
      cases quoted with
      | true =>
          obtain rfl := text rfl type rfl
          contradiction
      | false => cases type <;> first | rfl | contradiction

/-- The sum of a date and an interval. -/
def dateFirst : Signature := takes [required "left" .date, required "right" .interval] (.sameAs 0)

/-- The sum of an interval and a date. -/
def dateLast : Signature := takes [required "left" .interval, required "right" .date] (.sameAs 1)

/-- An interval that is added to a date is not taken for a date when less is known of the two. -/
theorem not_dateFirst_of_dateLast (vaguer : List.Forall₂ Given.Vaguer vagues exacts)
    (numbers : numericPair.accepts vagues = false) (chosen : dateLast.accepts exacts = true) :
    dateFirst.accepts vagues = false := by
  rw [Bool.eq_false_iff]
  intro tried
  obtain ⟨left, right, rfl, leftDate, rightInterval⟩ := (Signature.accepts_two ⟨rfl, rfl⟩).mp tried
  obtain ⟨first, second, rfl, firstInterval, secondDate⟩ :=
    (Signature.accepts_two ⟨rfl, rfl⟩).mp chosen
  obtain ⟨leftVaguer, others⟩ := List.forall₂_cons.mp vaguer
  obtain ⟨rightVaguer, -⟩ := List.forall₂_cons.mp others
  have known : ∀ {given : Given}, ParamType.number.admits given = false →
      given.type?.isSome = true := by
    intro given rejected
    cases typed : given.type? with
    | none => rw [ParamType.admits, typed] at rejected; contradiction
    | some _ => rfl
  have leftNumber : ParamType.number.admits left = true := by
    by_contra rejected
    rw [Bool.not_eq_true] at rejected
    rw [ParamType.admits_vaguer rfl leftVaguer (known rejected)] at leftDate rejected
    rw [number_of_date_of_interval leftVaguer.text leftDate firstInterval] at rejected
    contradiction
  have rightNumber : ParamType.number.admits right = true := by
    by_contra rejected
    rw [Bool.not_eq_true] at rejected
    rw [ParamType.admits_vaguer rfl rightVaguer (known rejected)] at rightInterval rejected
    rw [number_of_date_of_interval rightVaguer.text secondDate rightInterval] at rejected
    contradiction
  have accepted : numericPair.accepts [left, right] = true :=
    (Signature.accepts_two ⟨rfl, rfl⟩).mpr ⟨left, right, rfl, leftNumber, rightNumber⟩
  rw [accepted] at numbers
  contradiction

/-- A number with a sign. -/
def signed : Signature := takes [required "value" .number] (.sameAs 0)

theorem chosen?_additive {name description : String} {signature : Signature} {index : Nat}
    (chosen : (additive name description).chosen? args = some (signature, index)) :
    signature = numericPair ∨
      numericPair.accepts args = false ∧
        (signature = dateFirst ∨
          dateFirst.accepts args = false ∧ (signature = dateLast ∨ signature = signed)) := by
  change List.find? _ [(numericPair, 0), (dateFirst, 1), (dateLast, 2), (signed, 3)] = _ at chosen
  simp only [List.find?_cons, List.find?_nil] at chosen
  split at chosen
  · cases chosen
    exact .inl rfl
  · rename_i numbers
    refine .inr ⟨numbers, ?_⟩
    split at chosen
    · cases chosen
      exact .inl rfl
    · rename_i dates
      refine .inr ⟨dates, ?_⟩
      split at chosen
      · cases chosen
        exact .inl rfl
      · split at chosen
        · cases chosen
          exact .inr rfl
        · contradiction

theorem length_of_pair {first second : Parameter} {returns : ReturnRule}
    (required : first.optional = false ∧ second.optional = false)
    (accepted : Signature.accepts ⟨[first, second], returns, false, none⟩ args = true) :
    args.length = 2 := by
  obtain ⟨left, right, rfl, -⟩ := (Signature.accepts_two required).mp accepted
  rfl

theorem length_of_signed (accepted : signed.accepts args = true) : args.length = 1 := by
  obtain ⟨given, rfl, -⟩ := (Signature.accepts_one rfl).mp accepted
  rfl

theorem Steady.additive (name description : String) : (additive name description).Steady := by
  refine Steady.of_chosen rfl
    fun {vagues exacts first second here there} vaguer tried chosen _ => ?_
  have widest := resultType?_vaguer_of_widest rfl vaguer tried chosen
  have same := vaguer.length_eq
  have accepted := accepts_of_chosen? tried
  have accepting := accepts_of_chosen? chosen
  rcases chosen?_additive tried with rfl | ⟨numbers, rfl | ⟨dates, rfl | rfl⟩⟩
  · rcases chosen?_additive chosen with rfl | ⟨-, rfl | ⟨-, rfl | rfl⟩⟩
    · exact ⟨rfl, rfl, rfl, widest rfl⟩
    · exact ⟨rfl, rfl, rfl, widest rfl⟩
    · exact ⟨rfl, rfl, rfl, widest rfl⟩
    · have two := length_of_pair ⟨rfl, rfl⟩ accepted
      have one := length_of_signed accepting
      omega
  · rcases chosen?_additive chosen with rfl | ⟨-, rfl | ⟨-, rfl | rfl⟩⟩
    · exact absurd accepting (Signature.not_accepts_of_vaguer rfl vaguer numbers)
    · exact ⟨rfl, rfl, rfl, Signature.resultType?_vaguer rfl vaguer⟩
    · rw [not_dateFirst_of_dateLast vaguer numbers accepting] at accepted
      contradiction
    · have two := length_of_pair ⟨rfl, rfl⟩ accepted
      have one := length_of_signed accepting
      omega
  · rcases chosen?_additive chosen with rfl | ⟨-, rfl | ⟨-, rfl | rfl⟩⟩
    · exact absurd accepting (Signature.not_accepts_of_vaguer rfl vaguer numbers)
    · exact absurd accepting (Signature.not_accepts_of_vaguer rfl vaguer dates)
    · exact ⟨rfl, rfl, rfl, Signature.resultType?_vaguer rfl vaguer⟩
    · have two := length_of_pair ⟨rfl, rfl⟩ accepted
      have one := length_of_signed accepting
      omega
  · rcases chosen?_additive chosen with rfl | ⟨-, rfl | ⟨-, rfl | rfl⟩⟩
    · exact absurd accepting (Signature.not_accepts_of_vaguer rfl vaguer numbers)
    · exact absurd accepting (Signature.not_accepts_of_vaguer rfl vaguer dates)
    · have one := length_of_signed accepted
      have two := length_of_pair ⟨rfl, rfl⟩ accepting
      omega
    · exact ⟨rfl, rfl, rfl, Signature.resultType?_vaguer rfl vaguer⟩

/-! ## Groups of values -/

/-- Groups of a span of time. -/
def timeSpan : Signature :=
  takes [required "field" .date, constant (required "buckets" .interval)] (.sameAs 0)

/-- A number of groups between two bounds. -/
def bounded : Signature :=
  takes [required "field" dateOrNumber, constant (required "buckets" .number),
    constant (required "from" dateOrNumber), constant (required "to" dateOrNumber)] (.sameAs 0)

/-- Groups of a span of numbers. -/
def numberSpan : Signature :=
  takes [required "field" .number, constant (required "span" .number)] (.fixed .double)

def bucket : Callable :=
  grouping "bucket" "Creates groups of values out of a datetime or numeric input."
    [timeSpan, bounded, numberSpan]

theorem chosen?_bucket {signature : Signature} {index : Nat}
    (chosen : bucket.chosen? args = some (signature, index)) :
    signature = timeSpan ∨
      timeSpan.accepts args = false ∧ (signature = bounded ∨ signature = numberSpan) := by
  change List.find? _ [(timeSpan, 0), (bounded, 1), (numberSpan, 2)] = _ at chosen
  simp only [List.find?_cons, List.find?_nil] at chosen
  split at chosen
  · cases chosen
    exact .inl rfl
  · rename_i spans
    refine .inr ⟨spans, ?_⟩
    split at chosen
    · cases chosen
      exact .inl rfl
    · split at chosen
      · cases chosen
        exact .inr rfl
      · contradiction

theorem length_of_bounded (accepted : bounded.accepts args = true) : args.length = 4 := by
  rw [Signature.accepts, Bool.and_eq_true, Signature.fitsArity, Bool.and_eq_true] at accepted
  have least : bounded.minArgs = 4 := rfl
  have most : bounded.maxArgs? = some 4 := rfl
  simp only [least, most, Option.all_some, decide_eq_true_iff] at accepted
  omega

/-- Where groups of numbers are formed, groups of time are only tried while the type of the field is
unknown, since the span is a constant. -/
theorem resultType?_timeSpan_vaguer (vaguer : List.Forall₂ Given.Vaguer vagues exacts)
    (accepted : timeSpan.accepts vagues = true) (rejected : timeSpan.accepts exacts = false)
    (faultless : numberSpan.firstValueFault?From 0 exacts = none) :
    timeSpan.resultType? vagues = none := by
  obtain ⟨left, right, rfl, leftDate, rightInterval⟩ :=
    (Signature.accepts_two ⟨rfl, rfl⟩).mp accepted
  obtain ⟨field, others, fieldVaguer, rest, rfl⟩ := List.forall₂_cons_left_iff.mp vaguer
  obtain ⟨span, none, spanVaguer, last, rfl⟩ := List.forall₂_cons_left_iff.mp rest
  obtain rfl := List.forall₂_nil_left_iff.mp last
  change left.type? = none
  by_contra known
  rw [← ne_eq, ← Option.isSome_iff_ne_none] at known
  have fixed : span.constant = true := by
    by_contra changing
    rw [Bool.not_eq_true] at changing
    simp [Signature.firstValueFault?From, Signature.valueFault?, Signature.param?, numberSpan,
      takes, required, constant, changing] at faultless
  have accepting : timeSpan.accepts [field, span] = true := by
    refine (Signature.accepts_two ⟨rfl, rfl⟩).mpr ⟨field, span, rfl, ?_, ?_⟩
    · exact (ParamType.admits_vaguer rfl fieldVaguer known).symm.trans leftDate
    · exact (ParamType.admits_of_eq spanVaguer (spanVaguer.settled fixed)).symm.trans rightInterval
  rw [accepting] at rejected
  contradiction

theorem Steady.bucket : Steady bucket := by
  refine Steady.of_chosen rfl fun {vagues exacts first second here there} vaguer tried chosen
    faultless => ?_
  have same := vaguer.length_eq
  have accepted := accepts_of_chosen? tried
  have accepting := accepts_of_chosen? chosen
  rcases chosen?_bucket tried with rfl | ⟨spans, rfl | rfl⟩
  · rcases chosen?_bucket chosen with rfl | ⟨rejected, rfl | rfl⟩
    · exact ⟨rfl, rfl, rfl, Signature.resultType?_vaguer rfl vaguer⟩
    · have two := length_of_pair ⟨rfl, rfl⟩ accepted
      have four := length_of_bounded accepting
      omega
    · refine ⟨rfl, rfl, rfl, ?_⟩
      rw [resultType?_timeSpan_vaguer vaguer accepted rejected faultless]
      exact .none _
  · rcases chosen?_bucket chosen with rfl | ⟨-, rfl | rfl⟩
    · exact absurd accepting (Signature.not_accepts_of_vaguer rfl vaguer spans)
    · exact ⟨rfl, rfl, rfl, Signature.resultType?_vaguer rfl vaguer⟩
    · have four := length_of_bounded accepted
      have two := length_of_pair ⟨rfl, rfl⟩ accepting
      omega
  · rcases chosen?_bucket chosen with rfl | ⟨-, rfl | rfl⟩
    · exact absurd accepting (Signature.not_accepts_of_vaguer rfl vaguer spans)
    · have two := length_of_pair ⟨rfl, rfl⟩ accepted
      have four := length_of_bounded accepting
      omega
    · exact ⟨rfl, rfl, rfl, Signature.resultType?_vaguer rfl vaguer⟩

/-! ## The extent of shapes -/

/-- The extent of points or shapes of one kind, with the tier that it requires. -/
def extentOf (type result : FieldType) (license? : Option License) : Signature :=
  { takes [required "field" (.exact type)] (.fixed result) with license? := license? }

def extent : Callable :=
  aggregation "st_extent_agg" "Calculate the spatial extent over a field with geometry type."
    [extentOf .geoPoint .geoShape none, extentOf .cartesianPoint .cartesianShape none,
     extentOf .geoShape .geoShape (some .platinum),
     extentOf .cartesianShape .cartesianShape (some .platinum)]

/-- The extent of points is free; that of shapes is only told when no point is meant. -/
theorem chosen?_extent {signature : Signature} {index : Nat}
    (chosen : extent.chosen? args = some (signature, index)) :
    signature.license? = none ∧
        ((extentOf .geoPoint .geoShape none).accepts args = true ∨
          (extentOf .cartesianPoint .cartesianShape none).accepts args = true) ∨
      (extentOf .geoPoint .geoShape none).accepts args = false ∧
        (extentOf .cartesianPoint .cartesianShape none).accepts args = false ∧
        signature.license? = some .platinum := by
  change List.find? _ [(extentOf .geoPoint .geoShape none, 0),
    (extentOf .cartesianPoint .cartesianShape none, 1),
    (extentOf .geoShape .geoShape (some .platinum), 2),
    (extentOf .cartesianShape .cartesianShape (some .platinum), 3)] = _ at chosen
  simp only [List.find?_cons, List.find?_nil] at chosen
  split at chosen
  · rename_i geographic
    cases chosen
    exact .inl ⟨rfl, .inl geographic⟩
  · rename_i notGeographic
    split at chosen
    · rename_i cartesian
      cases chosen
      exact .inl ⟨rfl, .inr cartesian⟩
    · rename_i notCartesian
      refine .inr ⟨notGeographic, notCartesian, ?_⟩
      split at chosen
      · cases chosen
        rfl
      · split at chosen
        · cases chosen
          rfl
        · contradiction

theorem extent_signature {signature : Signature} (member : signature ∈ extent.signatures) :
    ∃ type result license?, signature = extentOf type result license? ∧ result.isShape = true := by
  simp only [extent, aggregation, entry, List.mem_cons, List.not_mem_nil, or_false] at member
  rcases member with rfl | rfl | rfl | rfl <;> exact ⟨_, _, _, rfl, rfl⟩

/-- Some signature accepts what is left of an argument that one accepts. -/
theorem chosen?_extent_isSome (vaguer : List.Forall₂ Given.Vaguer vagues exacts)
    {signature : Signature} {index : Nat}
    (chosen : extent.chosen? exacts = some (signature, index)) :
    (extent.chosen? vagues).isSome := by
  have accepting := accepts_of_chosen? chosen
  have member := mem_of_chosen? chosen
  have accepted : ∃ other ∈ extent.signatures, other.accepts vagues = true := by
    obtain ⟨type, result, license?, rfl, -⟩ := extent_signature member
    obtain ⟨exact, rfl, admitted⟩ := (Signature.accepts_one rfl).mp accepting
    obtain ⟨vague, none, head, last, rfl⟩ := List.forall₂_cons_right_iff.mp vaguer
    obtain rfl := List.forall₂_nil_right_iff.mp last
    cases known : vague.type? with
    | none =>
        refine ⟨_, member, (Signature.accepts_one rfl).mpr ⟨vague, rfl, ?_⟩⟩
        rw [ParamType.admits, known]
        rfl
    | some given =>
        obtain ⟨other, same, rfl | ⟨shape, -⟩⟩ := head.typed given known
        · refine ⟨_, member, (Signature.accepts_one rfl).mpr ⟨vague, rfl, ?_⟩⟩
          exact (ParamType.admits_of_eq head (known.trans same.symm)).trans admitted
        · have itself : ∀ quoted, ParamType.accepts given quoted (.exact given) = true := by
            simp [ParamType.accepts, ParamType.acceptsExact]
          refine ⟨extentOf given given (some .platinum), ?_,
            (Signature.accepts_one rfl).mpr ⟨vague, rfl, ?_⟩⟩
          · cases given <;> first | contradiction | simp [extent, aggregation, entry]
          · rw [ParamType.admits, known]
            exact itself vague.quoted
  obtain ⟨other, inside, accepts⟩ := accepted
  rw [← List.zipIdx_map_fst 0 extent.signatures] at inside
  obtain ⟨candidate, here, rfl⟩ := List.mem_map.mp inside
  rw [chosen?, List.find?_isSome]
  exact ⟨candidate, here, accepts⟩

theorem Steady.extent : Steady extent := by
  constructor
  intro vagues exacts vaguer second there type? matched
  obtain ⟨chosen, faultless, rfl⟩ := matched_iff.mp matched
  obtain ⟨⟨first, here⟩, tried⟩ := Option.isSome_iff_exists.mp (chosen?_extent_isSome vaguer chosen)
  obtain ⟨type, result, license?, rfl, shape⟩ := extent_signature (mem_of_chosen? tried)
  obtain ⟨otherType, otherResult, otherLicense?, rfl, otherShape⟩ :=
    extent_signature (mem_of_chosen? chosen)
  have same := @Signature.firstValueFault?From_vaguer _ _ (extentOf type result license?)
    (extentOf otherType otherResult otherLicense?) rfl rfl vaguer 0
  refine ⟨_, here, _, matched_iff.mpr ⟨tried, same.trans faultless, rfl⟩, ?_, ?_⟩
  · rcases chosen?_extent tried with ⟨free, -⟩ | ⟨notGeographic, notCartesian, platinum⟩
    · exact .inl free
    · rcases chosen?_extent chosen with ⟨-, accepted⟩ | ⟨-, -, required⟩
      · rcases accepted with geographic | cartesian
        · exact absurd geographic (Signature.not_accepts_of_vaguer rfl vaguer notGeographic)
        · exact absurd cartesian (Signature.not_accepts_of_vaguer rfl vaguer notCartesian)
      · exact .inr (platinum.trans required.symm)
  · exact Vaguer.some_iff.mpr ⟨otherResult, rfl, .inr ⟨shape, otherShape⟩⟩

/-! ## The catalog -/

theorem Steady.of_all {callables : List Callable} (uniform : callables.all isUniform = true) :
    ∀ callable ∈ callables, callable.Steady :=
  fun callable member => .of_isUniform (List.all_eq_true.mp uniform callable member)

theorem steady_aggregations : ∀ callable ∈ aggregations, callable.Steady := by
  rw [show aggregations = aggregations.dropLast ++ [extent] from rfl, List.forall_mem_append]
  exact ⟨.of_all (by decide +kernel), List.forall_mem_singleton.mpr .extent⟩

theorem steady_groupings : ∀ callable ∈ groupings, callable.Steady := by
  rw [show groupings = bucket :: groupings.tail from rfl, List.forall_mem_cons]
  exact ⟨.bucket, .of_all (by decide +kernel)⟩

theorem steady_operators : ∀ callable ∈ operators, callable.Steady := by
  rw [operators, List.forall_mem_cons, List.forall_mem_cons]
  exact ⟨.additive _ _, .additive _ _, .of_all (by decide +kernel)⟩

/-- Every function and operator is steady. -/
theorem steady_of_named? {name : String} {callable : Callable}
    (named : named? name = some callable) : callable.Steady := by
  have member := (mem_catalog_of_named? named).1
  rw [catalog] at member
  simp only [List.append_assoc] at member
  rcases List.mem_append.mp member with aggregation | member
  · exact steady_aggregations callable aggregation
  · rcases List.mem_append.mp member with grouping | member
    · exact steady_groupings callable grouping
    · rcases List.mem_append.mp member with operator | member
      · exact steady_operators callable operator
      · exact .of_all (by decide +kernel) callable member

end Callable

end Esql
