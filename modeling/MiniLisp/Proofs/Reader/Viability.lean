import MiniLisp.Proofs.Reader.Acceptance
import MiniLisp.Proofs.Reader.Spacing

/-! # Why a reading fails

A reading fails in two ways. It runs out of tokens, and then the tokens are the beginning of some
value: a symbol and a closing parenthesis for each list that is still open complete them. Or it
meets a token that no value can go on with; it stops right behind that token, as early as it can.

The tokens read so far lead from stack to stack, and a higher limit leads the same way. Characters
that are appended to a text can change only the last of its tokens, and only if that is a symbol, so
the two kinds of failures can be told apart in texts as well.
-/

namespace MiniLisp

/-- The tokens of some value begin with these tokens. -/
def Viable (tokens : List Token) : Prop := ∃ rest value, Derives (tokens ++ rest) value

/-- The tokens of some value begin with these tokens and go on behind them. -/
def Unfinished (tokens : List Token) : Prop :=
  ∃ rest value, rest ≠ [] ∧ Derives (tokens ++ rest) value

/-- The shortest beginning of the tokens that the tokens of no value begin with. -/
structure ShortestFault (tokens taken : List Token) : Prop where
  begins : taken <+: tokens
  fault : ¬ Viable taken
  shortest : ∀ other, other <+: tokens → ¬ Viable other → taken.length ≤ other.length

theorem Unfinished.viable {tokens : List Token} (h : Unfinished tokens) : Viable tokens := by
  obtain ⟨rest, value, -, derived⟩ := h
  exact ⟨rest, value, derived⟩

theorem Viable.of_append {tokens rest : List Token} (h : Viable (tokens ++ rest)) :
    Viable tokens := by
  obtain ⟨more, value, derived⟩ := h
  rw [List.append_assoc] at derived
  exact ⟨rest ++ more, value, derived⟩

/-! ## From stack to stack -/

namespace Reader

/-- The tokens lead from one stack of pending forms to another: no value is complete and no token is
at fault before they end. -/
inductive Reaches (limit : Nat) : List Pending → List Token → List Pending → Prop
  | nil {stack : List Pending} : Reaches limit stack [] stack
  | cons {token : Token} {tokens : List Token} {stack next last : List Pending} :
      step limit token stack = .ok (.more next) → Reaches limit next tokens last →
      Reaches limit stack (token :: tokens) last

variable {limit : Nat} {stack last : List Pending} {tokens : List Token}

theorem Reaches.readFrom_append (h : Reaches limit stack tokens last) (more : List Token) :
    readFrom limit stack (tokens ++ more) = readFrom limit last more := by
  induction h with
  | nil => rfl
  | cons taken _ ih => rw [List.cons_append, readFrom_of_ok taken, resume, ih]

theorem Reaches.mono {high : Nat} (h : Reaches limit stack tokens last) (more : limit ≤ high) :
    Reaches high stack tokens last := by
  induction h with
  | nil => exact .nil
  | @cons token _ stack _ _ taken _ ih =>
      rcases step_limits more token stack with exceeded | same
      · rw [taken] at exceeded
        cases exceeded
      · exact .cons (same ▸ taken) ih

/-- A complete value opens nothing. -/
theorem length_of_complete {value : Value} {stack next : List Pending}
    (h : complete value stack = .more next) : next.length ≤ stack.length := by
  fun_induction complete value stack with
  | case1 => cases h
  | case2 _ _ ih => exact Nat.le_succ_of_le (ih h)
  | case3 => cases h; simp

/-- Only a token that starts no value is at fault. -/
theorem step_eq_error {token : Token} {error : Error}
    (h : step limit token stack = .error (.error error)) :
    error = .unmatchedClose ∧ token.kind ≠ .symbol := by
  unfold step at h
  split at h
  · cases h
  · unfold start at h
    split at h
    · cases h
    · split at h
      · cases h
      · cases h
      · cases h
      · rename_i closing
        cases h
        exact ⟨rfl, by simp [closing]⟩
      · rename_i other
        cases h
        exact ⟨rfl, by simp [other]⟩

theorem length_of_step {token : Token} {next : List Pending}
    (h : step limit token stack = .ok (.more next)) (room : stack.length ≤ limit) :
    next.length ≤ limit := by
  unfold step at h
  split at h
  · have shorter := length_of_complete (Except.ok.inj h)
    rw [List.length_cons] at room
    omega
  · unfold start at h
    split at h
    · cases h
    · rename_i full
      split at h
      · have shorter := length_of_complete (Except.ok.inj h)
        omega
      · cases h
        rw [List.length_cons]
        omega
      · cases h
        rw [List.length_cons]
        omega
      · cases h
      · cases h

/-- The stack never grows beyond the limit. -/
theorem Reaches.length_le (h : Reaches limit stack tokens last) (room : stack.length ≤ limit) :
    last.length ≤ limit := by
  induction h with
  | nil => exact room
  | cons taken _ ih => exact ih (length_of_step taken room)

/-- A reading that fails within the limit has taken all tokens, or the last one it took is at
fault. -/
theorem readFrom_eq_error {error : Error} {rest : List Token}
    (h : readFrom limit stack tokens = (.error (.error error), rest)) :
    (∃ last, Reaches limit stack tokens last ∧ error = endError last ∧ rest = []) ∨
    ∃ earlier token last, tokens = earlier ++ token :: rest ∧ Reaches limit stack earlier last ∧
      step limit token last = .error (.error error) := by
  induction tokens generalizing stack with
  | nil =>
      cases h
      exact .inl ⟨stack, .nil, rfl, rfl⟩
  | cons token tokens ih =>
      rcases hs : step limit token stack with reason | next | value
      · rw [readFrom_of_error hs] at h
        cases h
        exact .inr ⟨[], token, stack, rfl, .nil, hs⟩
      · rw [readFrom_of_ok hs] at h
        rcases ih h with ⟨last, reached, ended, rfl⟩ | ⟨earlier, fault, last, rfl, reached, stopped⟩
        · exact .inl ⟨last, .cons hs reached, ended, rfl⟩
        · exact .inr ⟨token :: earlier, fault, last, rfl, .cons hs reached, stopped⟩
      · rw [readFrom_of_ok hs] at h
        cases h

/-! ## Completing what was read -/

def closings (count : Nat) : List Token := List.replicate count (Token.ofMark .closing ')')

/-- What a complete value leaves pending is complete after some closing parentheses. -/
theorem resume_closings (value : Value) (stack : List Pending) :
    ∃ count whole, ∀ limit, resume limit (complete value stack) (closings count) =
      (.ok whole, []) := by
  induction stack generalizing value with
  | nil => exact ⟨0, value, fun _ => rfl⟩
  | cons form stack ih =>
      cases form with
      | quote => exact ih (.quoted value)
      | list items =>
          obtain ⟨count, whole, read⟩ := ih (.ofList (value :: items).reverse)
          refine ⟨count + 1, whole, fun limit => ?_⟩
          rw [complete, resume, closings, List.replicate_succ, readFrom_of_ok rfl]
          exact read limit

/-- A symbol and some closing parentheses complete any pending forms, one level deeper. -/
theorem readFrom_completion (room : stack.length ≤ limit) :
    ∃ count whole, readFrom (limit + 1) stack (⟨.symbol, "x"⟩ :: closings count) =
      (.ok whole, []) := by
  obtain ⟨count, whole, read⟩ := resume_closings (.symbol "x") stack
  refine ⟨count, whole, ?_⟩
  have taken : step (limit + 1) ⟨.symbol, "x"⟩ stack = .ok (complete (.symbol "x") stack) :=
    start_of_room (Nat.lt_succ_of_le room) ⟨.symbol, "x"⟩
  rw [readFrom_of_ok taken]
  exact read (limit + 1)

theorem Reaches.completion (h : Reaches limit [] tokens last) :
    ∃ count whole, read (limit + 1) (tokens ++ ⟨.symbol, "x"⟩ :: closings count) =
      (.ok whole, []) := by
  obtain ⟨count, whole, read⟩ := readFrom_completion (h.length_le (Nat.zero_le limit))
  exact ⟨count, whole, ((h.mono (Nat.le_succ limit)).readFrom_append _).trans read⟩

/-- What leads to a stack can be completed. -/
theorem Reaches.unfinished (h : Reaches limit [] tokens last) : Unfinished tokens := by
  obtain ⟨count, whole, read⟩ := h.completion
  obtain ⟨taken, all, derived, -⟩ := read_eq_ok_iff.mp read
  rw [List.append_nil] at all
  exact ⟨⟨.symbol, "x"⟩ :: closings count, whole, by simp, all ▸ derived⟩

/-- No value goes on with a token at fault. -/
theorem Reaches.not_viable {token : Token} {error : Error} (h : Reaches limit [] tokens last)
    (stopped : step limit token last = .error (.error error)) : ¬ Viable (tokens ++ [token]) := by
  rintro ⟨rest, value, derived⟩
  -- Room for the value and for what was read makes one reading of both.
  let high := max limit value.textDepth
  have value_read : read high (tokens ++ [token] ++ rest ++ []) = (.ok value, []) :=
    read_of_derives derived (Nat.le_max_right _ _) []
  have reached := h.mono (Nat.le_max_left limit value.textDepth)
  have still : step high token last = .error (.error error) := by
    rcases step_limits (Nat.le_max_left limit value.textDepth) token last with exceeded | same
    · rw [stopped] at exceeded
      cases exceeded
    · rw [← stopped, same]
  rw [List.append_nil, List.append_assoc, read, reached.readFrom_append, List.singleton_append,
    readFrom_of_error still] at value_read
  cases value_read

theorem shortestFault_of_step {earlier rest : List Token} {token : Token} {error : Error}
    (h : Reaches limit [] earlier last) (stopped : step limit token last = .error (.error error)) :
    ShortestFault (earlier ++ token :: rest) (earlier ++ [token]) where
  begins := ⟨rest, by simp⟩
  fault := h.not_viable stopped
  shortest other begins fault := by
    rw [List.length_append, List.length_singleton]
    refine Nat.succ_le_of_lt (Nat.lt_of_not_le fun fits => fault ?_)
    obtain ⟨between, rfl⟩ := List.prefix_of_prefix_length_le begins (List.prefix_append _ _) fits
    exact h.unfinished.viable.of_append

end Reader

/-! ## Appended characters -/

namespace Token

/-- Scanning goes on from the tokens that are finished and the letters of the last symbol. -/
theorem scan_append (letters cs : List Char) :
    ∃ finished pending, scan letters cs = finished ++ flush pending ∧
      ∀ more, scan letters (cs ++ more) = finished ++ scan pending more := by
  induction cs generalizing letters with
  | nil => exact ⟨[], letters, rfl, fun _ => rfl⟩
  | cons c cs ih =>
      cases hc : CharClass.of c with
      | blank =>
          obtain ⟨finished, pending, whole, goes⟩ := ih []
          refine ⟨flush letters ++ finished, pending, ?_, fun more => ?_⟩
          · simp [scan, hc, whole]
          · simp [scan, hc, goes]
      | mark kind =>
          obtain ⟨finished, pending, whole, goes⟩ := ih []
          refine ⟨flush letters ++ ofMark kind c :: finished, pending, ?_, fun more => ?_⟩
          · simp [scan, hc, whole]
          · simp [scan, hc, goes]
      | letter =>
          obtain ⟨finished, pending, whole, goes⟩ := ih (c :: letters)
          refine ⟨finished, pending, ?_, fun more => ?_⟩
          · simp [scan, hc, whole]
          · simp [scan, hc, goes]

/-- The letters of an unfinished symbol become a symbol, whatever follows. -/
theorem scan_pending {letters : List Char} (h : letters ≠ []) (cs : List Char) :
    ∃ name rest, scan letters cs = ⟨.symbol, name⟩ :: rest := by
  induction cs generalizing letters with
  | nil =>
      cases letters with
      | nil => exact absurd rfl h
      | cons c letters => exact ⟨_, [], rfl⟩
  | cons c cs ih =>
      cases hc : CharClass.of c with
      | letter =>
          rw [scan, hc]
          exact ih (List.cons_ne_nil c letters)
      | _ =>
          cases letters with
          | nil => exact absurd rfl h
          | cons d letters => simp [scan, hc, flush]

theorem scanText_append_blank (text more : String) :
    scanText (text ++ " " ++ more) = scanText text ++ scanText more := by
  obtain ⟨finished, pending, whole, goes⟩ := scan_append [] text.toList
  have apart : scan pending (' ' :: more.toList) = flush pending ++ scan [] more.toList := by
    simp [scan, CharClass.of_space]
  unfold scanText
  rw [whole, String.toList_append, String.toList_append, List.append_assoc, goes]
  simpa using apart

theorem scan_closings (count : Nat) :
    scan [] (List.replicate count ')') = Reader.closings count := by
  induction count with
  | zero => rfl
  | succ count ih =>
      rw [List.replicate_succ, scan_mark CharClass.of_closing, ih]
      rfl

theorem flush_eq_cons {letters : List Char} {front rest : List Token} {token : Token}
    (h : flush letters = front ++ token :: rest) :
    letters ≠ [] ∧ front = [] ∧ token.kind = .symbol := by
  cases letters with
  | nil => simp [flush] at h
  | cons c letters =>
      cases front with
      | nil =>
          injection h with first _
          exact ⟨List.cons_ne_nil c letters, rfl, first ▸ rfl⟩
      | cons other front => simp [flush] at h

/-- Appended characters leave a token of a text as it is, or go on with it if it is a symbol; the
tokens in front of it stay. -/
theorem scanText_append {text : String} {taken rest : List Token} {token : Token}
    (h : scanText text = taken ++ token :: rest) (more : String) :
    ∃ token' rest', scanText (text ++ more) = taken ++ token' :: rest' ∧
      (token.kind ≠ .symbol → token' = token) := by
  obtain ⟨finished, pending, whole, goes⟩ := scan_append [] text.toList
  have later : scanText (text ++ more) = finished ++ scan pending more.toList := by
    rw [scanText, String.toList_append, goes]
  -- If the token is the unfinished symbol, a longer one takes its place.
  have longer (ends : flush pending = [] ++ token :: rest) :
      ∃ token' rest', scan pending more.toList = token' :: rest' ∧
        (token.kind ≠ .symbol → token' = token) := by
    obtain ⟨begun, -, symbol⟩ := flush_eq_cons ends
    obtain ⟨name, others, scanned⟩ := scan_pending begun more.toList
    exact ⟨_, others, scanned, fun mark => absurd symbol mark⟩
  rw [scanText, whole] at h
  rcases List.append_eq_append_iff.mp h with ⟨front, rfl, last⟩ | ⟨front, rfl, last⟩
  · obtain ⟨-, rfl, -⟩ := flush_eq_cons last
    obtain ⟨token', rest', scanned, kept⟩ := longer last
    exact ⟨token', rest', by rw [later, scanned]; simp, kept⟩
  · cases front with
    | nil =>
        obtain ⟨token', rest', scanned, kept⟩ := longer last.symm
        exact ⟨token', rest', by rw [later, scanned]; simp, kept⟩
    | cons first front =>
        injection last with same _
        subst same
        exact ⟨token, front ++ scan pending more.toList, by rw [later]; simp, fun _ => rfl⟩

end Token

/-! ## Texts -/

namespace Reader

def Completable (text : String) : Prop := ∃ more limit value, parse limit (text ++ more) = .ok value

/-- The messages of readings that want more tokens. -/
def incompleteMessages : List String :=
  ["Unexpected end of input", "Quote mark with nothing to quote", "Unmatched '('"]

/-- The messages of readings that no further token can mend. -/
def IsFinalMessage (message : String) : Prop :=
  message = "Unmatched ')'" ∨ ∃ shown, message = "Unexpected trailing input: " ++ shown

theorem endError_incomplete (stack : List Pending) :
    (endError stack).message ∈ incompleteMessages := by
  cases stack with
  | nil => exact .head _
  | cons form stack =>
      cases form with
      | quote => exact .tail _ (.head _)
      | list items => exact .tail _ (.tail _ (.head _))

theorem IsFinalMessage.not_incomplete {message : String} (final : IsFinalMessage message) :
    message ∉ incompleteMessages := by
  rcases final with rfl | ⟨shown, rfl⟩
  · simp [incompleteMessages]
  · simp [incompleteMessages, ← String.toList_inj]

variable {limit : Nat} {text : String}

theorem parse_eq_error {error : Error} (h : parse limit text = .error (.error error)) :
    (∃ rest, read limit (Token.scanText text) = (.error (.error error), rest)) ∨
    ∃ value token rest, read limit (Token.scanText text) = (.ok value, token :: rest) ∧
      error = .trailingInput token.text := by
  unfold parse at h
  rcases hr : read limit (Token.scanText text) with ⟨result, rest⟩
  rw [hr] at h
  cases result with
  | error reason =>
      cases h
      exact .inl ⟨rest, rfl⟩
  | ok value =>
      cases rest with
      | nil => cases h
      | cons token rest =>
          cases h
          exact .inr ⟨value, token, rest, rfl, rfl⟩

/-- A text that ends too early can be read with a symbol and some closing parentheses behind it, one
level deeper. -/
theorem Reaches.parse_append {last : List Pending}
    (h : Reaches limit [] (Token.scanText text) last) :
    ∃ more value, parse (limit + 1) (text ++ more) = .ok value := by
  obtain ⟨count, whole, read⟩ := h.completion
  have symbol : Token.scanText ("x" ++ String.ofList (List.replicate count ')')) =
      ⟨.symbol, "x"⟩ :: closings count := by
    have breaks : Token.Breaks (List.replicate count ')') := by
      cases count with
      | zero => exact Token.breaks_nil
      | succ count => exact Token.breaks_cons (by decide)
    have named : Token.scan [] ("x".toList ++ List.replicate count ')') =
        ⟨.symbol, "x"⟩ :: Token.scan [] (List.replicate count ')') :=
      Token.scan_name (by decide) breaks
    rw [Token.scan_closings] at named
    rw [Token.scanText, String.toList_append]
    simpa using named
  refine ⟨" " ++ ("x" ++ String.ofList (List.replicate count ')')), whole, ?_⟩
  unfold parse
  rw [← String.append_assoc, Token.scanText_append_blank, symbol, read]

theorem not_completable_of_fault {earlier rest : List Token} {token : Token}
    (whole : Token.scanText text = earlier ++ token :: rest) (mark : token.kind ≠ .symbol)
    (fault : ¬ Viable (earlier ++ [token])) : ¬ Completable text := by
  rintro ⟨more, high, value, parsed⟩
  obtain ⟨token', rest', longer, kept⟩ := Token.scanText_append whole more
  have derived := (parse_eq_ok_iff.mp parsed).1
  rw [longer, kept mark, List.append_cons] at derived
  exact fault ⟨rest', value, derived⟩

theorem not_completable_of_trailing {taken rest : List Token} {token : Token} {value : Value}
    (whole : Token.scanText text = taken ++ token :: rest) (derived : Derives taken value) :
    ¬ Completable text := by
  rintro ⟨more, high, value', parsed⟩
  obtain ⟨token', rest', longer, -⟩ := Token.scanText_append whole more
  have derived' := (parse_eq_ok_iff.mp parsed).1
  -- A value stands before the end, and no derivation is the beginning of another one.
  have same : taken ++ token' :: rest' = Token.scanText (text ++ more) ++ [] := by
    rw [longer, List.append_nil]
  obtain ⟨-, -, nothing⟩ := derived.unique derived' same
  cases nothing

/-- A text that cannot be read wants more characters, or it fails with a message that is final. -/
theorem parse_failure {error : Error} (h : parse limit text = .error (.error error)) :
    (error.message ∈ incompleteMessages ∧
      ∃ more value, parse (limit + 1) (text ++ more) = .ok value) ∨
    (IsFinalMessage error.message ∧ ¬ Completable text) := by
  rcases parse_eq_error h with ⟨rest, failed⟩ | ⟨value, token, rest, found, rfl⟩
  · rcases readFrom_eq_error failed with
      ⟨last, reached, rfl, -⟩ | ⟨earlier, token, last, whole, reached, stopped⟩
    · exact .inl ⟨endError_incomplete last, reached.parse_append⟩
    · obtain ⟨rfl, mark⟩ := step_eq_error stopped
      exact .inr ⟨.inl rfl, not_completable_of_fault whole mark (reached.not_viable stopped)⟩
  · obtain ⟨taken, whole, derived, -⟩ := read_eq_ok_iff.mp found
    exact .inr ⟨.inr ⟨_, rfl⟩, not_completable_of_trailing whole derived⟩

end Reader

namespace TokenStream

/-- A stream that gives no value has met a token at fault and stands right behind it, or it is
exhausted and wants more tokens. -/
theorem readValue_failure {limit : Nat} {stream : TokenStream} {error : Error}
    (h : (readValue limit stream).1 = .error (.error error)) :
    (error = .unmatchedClose ∧ ∃ taken, stream.view = taken ++ (readValue limit stream).2.view ∧
      ShortestFault stream.view taken) ∨
    (error.message ∈ Reader.incompleteMessages ∧ (readValue limit stream).2.view = [] ∧
      Unfinished stream.view) := by
  have failed : Reader.read limit stream.view =
      (.error (.error error), (readValue limit stream).2.view) := by
    rw [← readValue_view, h]
  rcases Reader.readFrom_eq_error failed with
    ⟨last, reached, rfl, ended⟩ | ⟨earlier, token, last, whole, reached, stopped⟩
  · exact .inr ⟨Reader.endError_incomplete last, ended, reached.unfinished⟩
  · refine .inl ⟨(Reader.step_eq_error stopped).1, earlier ++ [token], by rw [whole]; simp, ?_⟩
    rw [whole]
    exact Reader.shortestFault_of_step reached stopped

end TokenStream

/-- Failures to read are classified by their messages. An unmatched closing parenthesis is found as
early as it can be; the other failures of a stream want more tokens. A text can be mended by
appending something exactly when its message wants more. -/
theorem failures_classified (limit : Nat) :
    (∀ (stream : TokenStream) (error : Error),
      (stream.readValue limit).1 = .error (.error error) →
      (error.message = "Unmatched ')'" ∧
        ∃ taken, stream.view = taken ++ (stream.readValue limit).2.view ∧
          ShortestFault stream.view taken) ∨
      (error.message ∈ Reader.incompleteMessages ∧ (stream.readValue limit).2.view = [] ∧
        Unfinished stream.view)) ∧
    ∀ (text : String) (error : Error), Reader.parse limit text = .error (.error error) →
      (error.message ∈ Reader.incompleteMessages ∨ Reader.IsFinalMessage error.message) ∧
      (error.message ∈ Reader.incompleteMessages ↔ Reader.Completable text) ∧
      (error.message ∈ Reader.incompleteMessages →
        ∃ more value, Reader.parse (limit + 1) (text ++ more) = .ok value) ∧
      (Reader.IsFinalMessage error.message → ¬ Reader.Completable text) := by
  refine ⟨fun stream error h => ?_, fun text error h => ?_⟩
  · rcases TokenStream.readValue_failure h with ⟨rfl, fault⟩ | wanting
    · exact .inl ⟨rfl, fault⟩
    · exact .inr wanting
  · rcases Reader.parse_failure h with ⟨wants, more, value, parsed⟩ | ⟨final, never⟩
    · have able : Reader.Completable text := ⟨more, limit + 1, value, parsed⟩
      exact ⟨.inl wants, ⟨fun _ => able, fun _ => wants⟩, fun _ => ⟨more, value, parsed⟩,
        fun final => absurd wants final.not_incomplete⟩
    · exact ⟨.inr final, ⟨fun wants => absurd wants final.not_incomplete, fun able => absurd able never⟩,
        fun wants => absurd wants final.not_incomplete, fun _ => never⟩

/-- A list is closed where something to quote is wanted; a text ends there. -/
theorem failures_classified_of_quote :
    let tokens : List Token :=
      [⟨.opening, "("⟩, ⟨.quote, "'"⟩, ⟨.closing, ")"⟩, ⟨.symbol, "a"⟩]
    let stream := TokenStream.ofTokens tokens
    ((stream.readValue 3).1 = .error (.error .unmatchedClose) ∧ ShortestFault tokens (tokens.take 3)) ∧
      (Reader.parse 3 "(a '" = .error (.error .emptyQuote) ∧ Reader.Completable "(a '") ∧
      (Reader.parse 3 "(a ')" = .error (.error .unmatchedClose) ∧
        ¬ Reader.Completable "(a ')") := by
  intro tokens stream
  have seen : ((stream.readValue 3).1, (stream.readValue 3).2.view) =
      (.error (.error .unmatchedClose), tokens.drop 3) := stream.readValue_view 3
  injection seen with failed left
  have early : Reader.parse 3 "(a '" = .error (.error .emptyQuote) := by rfl
  have closed : Reader.parse 3 "(a ')" = .error (.error .unmatchedClose) := by rfl
  obtain ⟨streams, texts⟩ := failures_classified 3
  refine ⟨⟨failed, ?_⟩, ⟨early, ?_⟩, closed, ?_⟩
  · rcases streams stream _ failed with ⟨-, taken, whole, fault⟩ | ⟨wants, -⟩
    · rw [left] at whole
      have same : taken = tokens.take 3 := List.append_cancel_right whole.symm
      exact same ▸ fault
    · exact absurd wants (Reader.IsFinalMessage.not_incomplete (.inl rfl))
  · exact (texts _ _ early).2.1.mp (.tail _ (.head _))
  · exact (texts _ _ closed).2.2.2 (.inl rfl)

end MiniLisp
