import Mathlib.Data.List.Basic
import MiniLisp.Proofs.Call.Formals
import MiniLisp.Proofs.Value.Hereditary

/-! # Formals, arity and bindings fit together

Which values are formals, how many arguments their parameters accept and what a call binds, said of
the names as they are written. A formal with a star in front of its name may stand last only; there
it collects the rest. Formals that are a list of symbols with the star in the right place are refused
only for a name that is bound twice. A call binds the names in order, and the values bound to them
are the arguments: nothing is lost, repeated or moved.
-/

namespace MiniLisp

/-- A formal that collects the rest: a star and at least one more character. -/
def IsRest (formal : String) : Prop := 2 ≤ formal.length ∧ formal.toList.head? = some '*'

instance : DecidablePred IsRest := fun _ => inferInstanceAs (Decidable (_ ∧ _))

/-- The name that a formal binds: without the star, if it collects the rest. -/
def boundName (formal : String) : String :=
  if IsRest formal then String.ofList formal.toList.tail else formal

/-- No formal but the last collects the rest. -/
def RestLast (formals : List String) : Prop := ∀ formal ∈ formals.dropLast, ¬ IsRest formal

/-- The value is nil or a proper list of symbols with these names. -/
def Value.ListsSymbols (value : Value) (names : List String) : Prop :=
  value = .ofList (names.map .symbol)

theorem isRest_iff {formal : String} :
    IsRest formal ↔ ∃ c cs, formal.toList = '*' :: c :: cs := by
  unfold IsRest
  rw [← String.length_toList]
  cases formal.toList with
  | nil => simp
  | cons first rest => cases rest <;> simp

theorem restName?_of_isRest {formal : String} (h : IsRest formal) :
    restName? formal = some (boundName formal) := by
  obtain ⟨c, cs, hl⟩ := isRest_iff.mp h
  rw [boundName, if_pos h, restName?, hl]
  rfl

theorem restName?_of_not_isRest {formal : String} (h : ¬ IsRest formal) :
    restName? formal = none := by
  unfold restName?
  split
  · rename_i c cs hl
    exact absurd (isRest_iff.mpr ⟨c, cs, hl⟩) h
  · rfl

theorem restName?_isSome (formal : String) : (restName? formal).isSome = decide (IsRest formal) := by
  by_cases h : IsRest formal
  · simp [restName?_of_isRest h, h]
  · simp [restName?_of_not_isRest h, h]

theorem boundName_of_not_isRest {formal : String} (h : ¬ IsRest formal) :
    boundName formal = formal := if_neg h

theorem restLast_nil : RestLast [] := List.forall_mem_nil _

theorem restLast_concat {early : List String} {last : String} :
    RestLast (early ++ [last]) ↔ ∀ formal ∈ early, ¬ IsRest formal := by
  rw [RestLast, List.dropLast_concat]

/-! ## Lists of formals -/

namespace Params

/-- The parameters that formals stand for, when only the last may collect the rest. -/
def arranged (formals : List String) : Params :=
  match formals.getLast?.bind restName? with
  | some rest => ⟨formals.dropLast, some rest⟩
  | none => ⟨formals, none⟩

theorem arranged_rest (early : List String) {last : String} (h : IsRest last) :
    arranged (early ++ [last]) = ⟨early, some (boundName last)⟩ := by
  simp [arranged, restName?_of_isRest h]

theorem arranged_fixed (early : List String) {last : String} (h : ¬ IsRest last) :
    arranged (early ++ [last]) = ⟨early ++ [last], none⟩ := by
  simp [arranged, restName?_of_not_isRest h]

/-- The formals that collect the rest stand among the early ones or last. -/
theorem rests_concat (early : List String) (last : String) :
    (early ++ [last]).filter (fun formal => (restName? formal).isSome) =
      early.filter (fun formal => decide (IsRest formal)) ++ if IsRest last then [last] else [] := by
  simp only [restName?_isSome, List.filter_append, List.filter_cons, List.filter_nil,
    decide_eq_true_eq]

theorem ofWritten_restLast {formals : List String} (h : RestLast formals) :
    ofWritten formals = ofWritten.distinct (arranged formals) := by
  rcases List.eq_nil_or_concat' formals with rfl | ⟨early, last, rfl⟩
  · rfl
  · have absent : early.filter (fun formal => decide (IsRest formal)) = [] := by
      rw [List.filter_eq_nil_iff]
      simpa using restLast_concat.mp h
    unfold ofWritten
    rw [rests_concat, absent, List.nil_append]
    by_cases hr : IsRest last
    · rw [arranged_rest early hr]
      simp [hr, restName?_of_isRest hr]
    · rw [arranged_fixed early hr]
      simp [hr, restName?_of_not_isRest hr]

theorem ofWritten_not_restLast {formals : List String} (h : ¬ RestLast formals) :
    ∃ error, ofWritten formals = .error error ∧ error.kind = .type := by
  rcases List.eq_nil_or_concat' formals with rfl | ⟨early, last, rfl⟩
  · exact absurd restLast_nil h
  · have present : early.filter (fun formal => decide (IsRest formal)) ≠ [] := by
      rw [restLast_concat] at h
      rw [Ne, List.filter_eq_nil_iff]
      simpa using h
    obtain ⟨rest, rests, found⟩ := List.exists_cons_of_ne_nil present
    unfold ofWritten
    rw [rests_concat, found]
    -- A second one is found first, be it early or last; else the only one stands too early.
    by_cases hr : IsRest last
    · exact ⟨.severalRests, by simp [hr], rfl⟩
    · by_cases several : rests = []
      · exact ⟨.restNotLast, by simp [hr, several, restName?_of_not_isRest hr], rfl⟩
      · have more : 0 < rests.length := List.length_pos_of_ne_nil several
        exact ⟨.severalRests, by simp [hr, more], rfl⟩

/-- All parameters are fixed, or the last formal is the only one that collects the rest. -/
theorem arranged_cases {formals : List String} (h : RestLast formals) :
    ((∀ formal ∈ formals, ¬ IsRest formal) ∧ arranged formals = ⟨formals, none⟩) ∨
    ∃ early last, formals = early ++ [last] ∧ (∀ formal ∈ early, ¬ IsRest formal) ∧ IsRest last ∧
      arranged formals = ⟨early, some (boundName last)⟩ := by
  rcases List.eq_nil_or_concat' formals with rfl | ⟨early, last, rfl⟩
  · exact .inl ⟨List.forall_mem_nil _, rfl⟩
  · have plain := restLast_concat.mp h
    by_cases hr : IsRest last
    · exact .inr ⟨early, last, rfl, plain, hr, arranged_rest early hr⟩
    · refine .inl ⟨fun formal member => ?_, arranged_fixed early hr⟩
      rcases List.mem_append.mp member with early | only
      · exact plain formal early
      · rwa [List.mem_singleton.mp only]

theorem map_boundName_of_plain {formals : List String} (h : ∀ formal ∈ formals, ¬ IsRest formal) :
    formals.map boundName = formals := by
  have each : formals.map boundName = formals.map id :=
    List.map_congr_left fun formal member => boundName_of_not_isRest (h formal member)
  rw [each, List.map_id]

/-- The parameters bind the names of the formals, in order. -/
theorem names_arranged {formals : List String} (h : RestLast formals) :
    (arranged formals).names = formals.map boundName := by
  rcases arranged_cases h with ⟨plain, same⟩ | ⟨early, last, rfl, plain, -, same⟩
  · rw [same, map_boundName_of_plain plain]
    exact List.append_nil formals
  · rw [same, List.map_append, map_boundName_of_plain plain]
    rfl

theorem distinct_of_nodup {params : Params} (h : params.names.Nodup) :
    ofWritten.distinct params = .ok params := if_pos h

theorem distinct_of_not_nodup {params : Params} (h : ¬ params.names.Nodup) :
    ofWritten.distinct params = .error (.duplicateFormal params.names) := if_neg h

/-! ## Values as formals -/

theorem symbolNames_eq_ok {items : List Value} {names : List String}
    (h : symbolNames items = .ok names) : items = names.map .symbol := by
  fun_induction symbolNames items generalizing names with
  | case1 =>
      cases h
      rfl
  | case2 name items ih =>
      cases hn : symbolNames items with
      | error item =>
          rw [hn] at h
          cases h
      | ok others =>
          rw [hn] at h
          cases h
          rw [List.map_cons, ← ih hn]
  | case3 => cases h

theorem mem_of_symbolNames_error {items : List Value} {item : Value}
    (h : symbolNames items = .error item) : item ∈ items := by
  fun_induction symbolNames items with
  | case1 => cases h
  | case2 name items ih =>
      cases hn : symbolNames items with
      | error other =>
          rw [hn] at h
          cases h
          exact List.mem_cons_of_mem _ (ih hn)
      | ok others =>
          rw [hn] at h
          cases h
  | case3 =>
      cases h
      exact List.mem_cons_self

end Params

theorem Value.ListsSymbols.unique {value : Value} {names names' : List String}
    (h : value.ListsSymbols names) (h' : value.ListsSymbols names') : names = names' := by
  have symbols : names.map Value.symbol = names'.map Value.symbol :=
    ofList_injective (h.symm.trans h')
  exact List.map_injective_iff.mpr (fun _ _ => Value.symbol.inj) symbols

theorem Value.inspectDepth_ofList {items : List Value} {item : Value} (h : item ∈ items) :
    item.inspectDepth ≤ (ofList items).inspectDepth := by
  induction items with
  | nil => cases h
  | cons first items ih =>
      rw [ofList_cons, inspectDepth]
      rcases List.mem_cons.mp h with rfl | later
      · omega
      · have deeper := ih later
        omega

namespace Params

/-- What lists no symbols is refused for its shape, or is too deep to be shown in the message. -/
theorem ofValue_not_listsSymbols (limit : Nat) {value : Value}
    (h : ∀ formals, ¬ value.ListsSymbols formals) :
    (∃ error, ofValue limit value = .error (.error error) ∧ error.kind = .type) ∨
    (limit < value.inspectDepth ∧ ofValue limit value = .error .overflow) := by
  unfold ofValue Value.elements
  cases hl : value.toList? with
  | none =>
      by_cases hc : value.isCell = true
      · exact .inl ⟨.formalsNotList, by simp [hc], rfl⟩
      · by_cases room : value.inspectDepth ≤ limit
        · exact .inl ⟨.formalsNotList, by simp [hc, Stop.ofError, Error.messageDepth, room], rfl⟩
        · exact .inr ⟨by omega, by simp [hc, Stop.ofError, Error.messageDepth, room]⟩
  | some items =>
      have whole := Value.ofList_of_toList? hl
      cases hn : symbolNames items with
      | ok names =>
          refine absurd ?_ (h names)
          rw [Value.ListsSymbols, ← symbolNames_eq_ok hn, whole]
      | error item =>
          have depth := Value.inspectDepth_ofList (mem_of_symbolNames_error hn)
          rw [whole] at depth
          by_cases room : item.inspectDepth ≤ limit
          · exact .inl ⟨.formalNotSymbol item,
              by simp [hn, Stop.ofError, Error.messageDepth, room], rfl⟩
          · exact .inr ⟨by omega, by simp [hn, Stop.ofError, Error.messageDepth, room]⟩

/-- Formals describe parameters, bind a name twice, or are malformed. -/
theorem ofValue_cases (limit : Nat) (value : Value) :
    (∃ formals, value.ListsSymbols formals ∧ RestLast formals ∧ (formals.map boundName).Nodup ∧
      ofValue limit value = .ok (arranged formals)) ∨
    (∃ formals, value.ListsSymbols formals ∧ RestLast formals ∧ ¬ (formals.map boundName).Nodup ∧
      ofValue limit value = .error (.error (.duplicateFormal (formals.map boundName)))) ∨
    ((∀ formals, value.ListsSymbols formals → ¬ RestLast formals) ∧
      ((∃ error, ofValue limit value = .error (.error error) ∧ error.kind = .type) ∨
        (limit < value.inspectDepth ∧ ofValue limit value = .error .overflow))) := by
  by_cases listed : ∃ formals, value.ListsSymbols formals
  · obtain ⟨formals, rfl⟩ := listed
    by_cases placed : RestLast formals
    · have names := names_arranged placed
      rw [ofValue_symbols, ofWritten_restLast placed]
      by_cases nodup : (formals.map boundName).Nodup
      · rw [distinct_of_nodup (names ▸ nodup)]
        exact .inl ⟨formals, rfl, placed, nodup, rfl⟩
      · rw [distinct_of_not_nodup (names ▸ nodup), names]
        exact .inr (.inl ⟨formals, rfl, placed, nodup, rfl⟩)
    · obtain ⟨error, refused, kind⟩ := ofWritten_not_restLast placed
      rw [ofValue_symbols, refused]
      exact .inr (.inr ⟨fun others same => same.unique rfl ▸ placed, .inl ⟨error, rfl, kind⟩⟩)
  · have unlisted : ∀ formals, ¬ value.ListsSymbols formals := fun formals h => listed ⟨formals, h⟩
    exact .inr (.inr ⟨fun formals h => absurd h (unlisted formals),
      ofValue_not_listsSymbols limit unlisted⟩)

/-! ## Bindings -/

theorem map_snd_zip_take (names : List String) {args : List Value}
    (fits : names.length ≤ args.length) :
    (names.zip args).map Prod.snd = args.take names.length := by
  induction names generalizing args with
  | nil => rfl
  | cons name names ih =>
      cases args with
      | nil => simp at fits
      | cons arg args => simpa using ih (Nat.le_of_succ_le_succ fits)

/-- The values bound to the fixed parameters, and the rest if it is collected, are the arguments. -/
theorem values_of_bind? {params : Params} {args : List Value} {frame : Frame}
    (h : params.bind? args = some frame) :
    (params.rest = none → frame.map Prod.snd = args) ∧
    (params.rest.isSome → ∃ fixed rest, frame.map Prod.snd = fixed ++ [.ofList rest] ∧
      fixed ++ rest = args) := by
  obtain ⟨names, collector⟩ := params
  unfold bind? at h
  rw [bindFixed_eq] at h
  by_cases fits : names.length ≤ args.length
  · have values := map_snd_zip_take names fits
    rw [if_pos fits] at h
    cases collector with
    | some rest =>
        cases h
        refine ⟨fun fixed => (nomatch fixed), fun _ => ?_⟩
        refine ⟨_, _, ?_, List.take_append_drop names.length args⟩
        rw [List.map_append, values]
        rfl
    | none =>
        cases hd : args.drop names.length with
        | nil =>
            rw [hd] at h
            cases h
            refine ⟨fun _ => ?_, fun collected => (nomatch collected)⟩
            rw [values, List.take_of_length_le (List.drop_eq_nil_iff.mp hd)]
        | cons extra more =>
            rw [hd] at h
            cases h
  · rw [if_neg fits] at h
    cases h

end Params

/-- So many arguments fit the formals: one for each, or any number for the last if it collects the
rest. -/
def Fits (formals : List String) (count : Nat) : Prop :=
  ((∀ formal ∈ formals, ¬ IsRest formal) ∧ count = formals.length) ∨
    ((∃ last ∈ formals.getLast?, IsRest last) ∧ formals.length ≤ count + 1)

/-- What a call binds: the names of the formals, in order, to values that are the arguments. -/
structure Binds (formals : List String) (args : List Value) (frame : Frame) : Prop where
  names : Frame.names frame = formals.map boundName
  fixed : (∀ formal ∈ formals, ¬ IsRest formal) → frame.map Prod.snd = args
  rest : (∃ last ∈ formals.getLast?, IsRest last) →
    ∃ fixed rest, frame.map Prod.snd = fixed ++ [.ofList rest] ∧ fixed ++ rest = args

namespace Params

theorem accepts_arranged {formals : List String} (h : RestLast formals) (count : Nat) :
    (arranged formals).arity.accepts count = true ↔ Fits formals count := by
  unfold Fits
  rcases arranged_cases h with ⟨plain, same⟩ | ⟨early, last, rfl, -, hr, same⟩
  · have fixed : (arranged formals).arity = ⟨formals.length, false⟩ := by rw [same]; rfl
    rw [fixed, Arity.accepts_fixed]
    constructor
    · intro equal
      exact .inl ⟨plain, by omega⟩
    · rintro (⟨-, equal⟩ | ⟨⟨last, ends, hr⟩, -⟩)
      · omega
      · exact absurd hr (plain last (List.mem_of_getLast? ends))
  · have least : (arranged (early ++ [last])).arity = ⟨early.length, true⟩ := by rw [same]; rfl
    rw [least, Arity.accepts_variadic, List.length_append, List.length_singleton]
    constructor
    · intro enough
      exact .inr ⟨⟨last, by simp, hr⟩, by omega⟩
    · rintro (⟨plain, -⟩ | ⟨-, enough⟩)
      · exact absurd hr (plain last (by simp))
      · omega

theorem binds_arranged {formals : List String} (h : RestLast formals) {args : List Value}
    {frame : Frame} (bound : (arranged formals).bind? args = some frame) :
    Binds formals args frame := by
  obtain ⟨fixed, rest⟩ := values_of_bind? bound
  refine ⟨(names_of_bind? bound).trans (names_arranged h), fun plain => ?_, fun ends => ?_⟩
  · rcases arranged_cases h with ⟨-, same⟩ | ⟨early, last, rfl, -, hr, -⟩
    · exact fixed (by rw [same])
    · exact absurd hr (plain last (by simp))
  · rcases arranged_cases h with ⟨plain, -⟩ | ⟨early, last, rfl, -, -, same⟩
    · obtain ⟨last, member, hr⟩ := ends
      exact absurd hr (plain last (List.mem_of_getLast? member))
    · exact rest (by rw [same]; rfl)

/-- Formals, arity and bindings fit together: what describes parameters, with which error the rest
is refused, how many arguments are accepted, and what they are bound to, all said of the names as
they are written. -/
theorem formals_arity_bindings_fit (limit : Nat) (value : Value) :
    ((∃ params, ofValue limit value = .ok params) ↔
      ∃ formals, value.ListsSymbols formals ∧ RestLast formals ∧ (formals.map boundName).Nodup) ∧
    ((∃ error, ofValue limit value = .error (.error error) ∧ error.kind = .eval) ↔
      ∃ formals, value.ListsSymbols formals ∧ RestLast formals ∧
        ¬ (formals.map boundName).Nodup) ∧
    ((∃ error, ofValue limit value = .error (.error error) ∧ error.kind = .type) ∨
        (limit < value.inspectDepth ∧ ofValue limit value = .error .overflow) ↔
      ∀ formals, value.ListsSymbols formals → ¬ RestLast formals) ∧
    ∀ formals params, value.ListsSymbols formals → ofValue limit value = .ok params →
      ∀ args : List Value, (params.arity.accepts args.length = true ↔ Fits formals args.length) ∧
        (Fits formals args.length → ∃ frame, params.bind? args = some frame ∧
          frame.length = formals.length ∧ Binds formals args frame) := by
  rcases ofValue_cases limit value with ⟨formals, listed, placed, nodup, found⟩ |
    ⟨formals, listed, placed, twice, found⟩ | ⟨malformed, refused⟩
  · rw [found]
    refine ⟨iff_of_true ⟨_, rfl⟩ ⟨formals, listed, placed, nodup⟩, iff_of_false ?_ ?_,
      iff_of_false ?_ fun never => never formals listed placed, ?_⟩
    · exact fun ⟨_, other, _⟩ => nomatch other
    · exact fun ⟨others, same, _, twice⟩ => twice (same.unique listed ▸ nodup)
    · rintro (⟨_, other, -⟩ | ⟨-, other⟩) <;> cases other
    · intro others params same described args
      cases described
      rw [same.unique listed]
      have accepted := accepts_arranged placed args.length
      refine ⟨accepted, fun fits => ?_⟩
      have taken := (bind?_isSome (arranged formals) args).trans (accepted.mpr fits)
      obtain ⟨frame, bound⟩ := Option.isSome_iff_exists.mp taken
      have binds := binds_arranged placed bound
      have count := congrArg List.length binds.names
      exact ⟨frame, bound, by simpa [Frame.names] using count, binds⟩
  · rw [found]
    refine ⟨iff_of_false ?_ ?_, iff_of_true ⟨_, rfl, rfl⟩ ⟨formals, listed, placed, twice⟩,
      iff_of_false ?_ fun never => never formals listed placed, ?_⟩
    · exact fun ⟨_, other⟩ => nomatch other
    · exact fun ⟨others, same, _, nodup⟩ => twice (same.unique listed ▸ nodup)
    · rintro (⟨error, other, kind⟩ | ⟨-, other⟩)
      · cases other
        cases kind
      · cases other
    · exact fun _ _ _ described => nomatch described
  · have never : ∀ params, ofValue limit value ≠ .ok params := by
      intro params described
      rcases refused with ⟨_, other, -⟩ | ⟨-, other⟩ <;> rw [described] at other <;> cases other
    refine ⟨iff_of_false ?_ ?_, iff_of_false ?_ ?_, iff_of_true refused malformed, ?_⟩
    · exact fun ⟨params, described⟩ => never params described
    · exact fun ⟨formals, listed, placed, _⟩ => malformed formals listed placed
    · rintro ⟨error, other, kind⟩
      rcases refused with ⟨_, other', kind'⟩ | ⟨-, other'⟩
      · rw [other] at other'
        cases other'
        rw [kind] at kind'
        cases kind'
      · rw [other] at other'
        cases other'
    · exact fun ⟨formals, listed, placed, _⟩ => malformed formals listed placed
    · exact fun _ params _ described => absurd described (never params)

/-- A rest of two arguments; and a name that a star on its own has already. -/
theorem formals_arity_bindings_fit_of_collector :
    let value : Value := .ofList [.symbol "a", .symbol "*b"]
    let args : List Value := [.nil, .symbol "y", .symbol "z"]
    (value.ListsSymbols ["a", "*b"] ∧ Fits ["a", "*b"] 3 ∧
      ∃ params frame, ofValue 0 value = .ok params ∧ params.bind? args = some frame ∧
        Binds ["a", "*b"] args frame) ∧
    ∃ error, ofValue 0 (.ofList [.symbol "*", .symbol "**"]) = .error (.error error) ∧
      error.kind = .eval := by
  intro value args
  have listed : value.ListsSymbols ["a", "*b"] := rfl
  have last : RestLast ["a", "*b"] := by unfold RestLast; decide
  have fits : Fits ["a", "*b"] args.length := .inr ⟨⟨"*b", rfl, by decide⟩, by decide⟩
  obtain ⟨success, -, -, calls⟩ := formals_arity_bindings_fit 0 value
  obtain ⟨params, described⟩ := success.mpr ⟨_, listed, last, by decide⟩
  obtain ⟨frame, bound, -, binds⟩ := (calls _ params listed described args).2 fits
  refine ⟨⟨listed, fits, params, frame, described, bound, binds⟩, ?_⟩
  refine (formals_arity_bindings_fit 0 _).2.1.mpr ⟨["*", "**"], rfl, ?_, by decide⟩
  unfold RestLast
  decide

end Params

end MiniLisp
