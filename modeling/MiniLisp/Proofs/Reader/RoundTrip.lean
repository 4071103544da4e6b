import MiniLisp.Reader.Grammar
import MiniLisp.Value.Limited
import MiniLisp.Value.Readable

/-! # Reading printed text

The text of a value whose symbols have readable names is scanned into the tokens that the value is
written with, and these derive the value that the text shows. So printing and reading a value again
is normalisation, and the text of what is read is the text that was printed.

Both halves follow the structure of the value at a place. The scanner needs to know what follows a
text, since a symbol ends only where no letter goes on with it.
-/

namespace MiniLisp

/-! ## Scanning -/

namespace CharClass

theorem of_space : CharClass.of ' ' = .blank := by decide

theorem of_opening : CharClass.of '(' = .mark .opening := by decide

theorem of_closing : CharClass.of ')' = .mark .closing := by decide

theorem of_apostrophe : CharClass.of '\'' = .mark .quote := by decide

end CharClass

namespace Token

/-- No letter goes on with a symbol that ends in front of these characters. -/
def Breaks (cs : List Char) : Prop := ∀ c ∈ cs.head?, CharClass.of c ≠ .letter

theorem breaks_nil : Breaks [] := by simp [Breaks]

theorem breaks_cons {c : Char} {cs : List Char} (h : CharClass.of c ≠ .letter) :
    Breaks (c :: cs) := by
  simpa [Breaks] using h

theorem scan_of_breaks {letters cs : List Char} (h : Breaks cs) :
    scan letters cs = flush letters ++ scan [] cs := by
  cases cs with
  | nil => simp [scan, flush]
  | cons c cs =>
      have hc : CharClass.of c ≠ .letter := by simpa [Breaks] using h
      cases hk : CharClass.of c with
      | blank => simp [scan, hk, flush]
      | mark kind => simp [scan, hk, flush]
      | letter => exact absurd hk hc

theorem scan_letters {cs : List Char} (h : ∀ c ∈ cs, CharClass.of c = .letter) :
    ∀ letters rest, scan letters (cs ++ rest) = scan (cs.reverse ++ letters) rest := by
  induction cs with
  | nil => intro letters rest; rfl
  | cons c cs ih =>
      intro letters rest
      have hc := h c (by simp)
      have later := ih (fun d member => h d (by simp [member])) (c :: letters) rest
      rw [List.cons_append, scan, hc]
      simpa using later

theorem scan_name {name : String} {rest : List Char} (readable : isReadable name = true)
    (hb : Breaks rest) : scan [] (name.toList ++ rest) = ⟨.symbol, name⟩ :: scan [] rest := by
  unfold isReadable at readable
  rw [Bool.and_eq_true, List.all_eq_true] at readable
  have letters : ∀ c ∈ name.toList, CharClass.of c = .letter :=
    fun c member => of_decide_eq_true (readable.2 c member)
  rw [scan_letters letters, List.append_nil, scan_of_breaks hb]
  cases hn : name.toList with
  | nil => simp [hn] at readable
  | cons c cs =>
      have whole : String.ofList (c :: cs) = name := by rw [← hn, String.ofList_toList]
      cases hr : (c :: cs).reverse with
      | nil => simp at hr
      | cons d ds =>
          have back : (d :: ds).reverse = c :: cs := by rw [← hr, List.reverse_reverse]
          rw [flush, back, whole]
          · rfl
          · simp

theorem scan_mark {c : Char} {kind : TokenKind} (h : CharClass.of c = .mark kind)
    (rest : List Char) : scan [] (c :: rest) = ofMark kind c :: scan [] rest := by
  simp [scan, h, flush]

theorem scan_blank {c : Char} (h : CharClass.of c = .blank) (rest : List Char) :
    scan [] (c :: rest) = scan [] rest := by
  simp [scan, h, flush]

end Token

theorem isReadable_of_letters {name : String} (hn : name.toList ≠ [])
    (h : ∀ c ∈ name.toList, CharClass.of c = .letter) : isReadable name = true := by
  unfold isReadable
  rw [Bool.and_eq_true, List.all_eq_true]
  refine ⟨by simpa using hn, fun c member => decide_eq_true (h c member)⟩

theorem charClass_of_isDigit {c : Char} (h : c.isDigit = true) : CharClass.of c = .letter := by
  have bounds : 48 ≤ c.toNat ∧ c.toNat ≤ 57 := Char.isDigit_iff_toNat.mp h
  have visible : Text.isBlank c = false := by
    rw [← Bool.not_eq_true, Text.isBlank, Text.Ranges.contains_iff]
    rintro ⟨range, member, low, high⟩
    simp only [Text.blankRanges, List.mem_cons, List.not_mem_nil, or_false] at member
    rcases member with rfl | rfl | rfl | rfl | rfl | rfl | rfl | rfl | rfl | rfl <;>
      simp only at low high <;> omega
  have mark : ∀ d : Char, d.toNat < 48 → c ≠ d := fun d low same => by
    subst same
    omega
  simp [CharClass.of, visible, mark '(' (by decide), mark ')' (by decide), mark '\'' (by decide)]

theorem isReadable_toString (n : Int) : isReadable (toString n) = true := by
  have digits (m : Nat) : ∀ c ∈ m.repr.toList, CharClass.of c = .letter := by
    intro c member
    rw [Nat.toList_repr] at member
    exact charClass_of_isDigit (Nat.isDigit_of_mem_toDigits (by decide) (by decide) member)
  rw [Int.toString_eq_repr, Int.repr_eq_if]
  split
  · exact isReadable_of_letters (by simp) (digits _)
  · refine isReadable_of_letters (by simp) fun c member => ?_
    rw [String.toList_append, List.mem_append] at member
    rcases member with sign | digit
    · have minus : c = '-' := by simpa using sign
      subst minus
      decide
    · exact digits _ c digit

/-! ## The tokens of a value -/

namespace Place

def atomTokens (place : Place) (tokens : List Token) : List Token :=
  match place with
  | element => tokens
  | rest => ⟨.symbol, "."⟩ :: tokens

def listTokens (place : Place) (inner : List Token) : List Token :=
  match place with
  | element => Token.ofMark .opening '(' :: inner ++ [Token.ofMark .closing ')']
  | rest => inner

def emptyTokens : Place → List Token
  | element => [⟨.symbol, "nil"⟩]
  | rest => []

theorem toList_atom_rest (text : String) :
    (rest.atom text).toList = ' ' :: '.' :: ' ' :: text.toList := by
  simp [atom]

theorem toList_list_rest (inner : String) : (rest.list inner).toList = ' ' :: inner.toList := by
  simp [list]

theorem toList_list_element (inner : String) :
    (element.list inner).toList = '(' :: inner.toList ++ [')'] := by
  simp [list]

end Place

def Value.tokensAt (place : Place) : Value → List Token
  | nil => place.emptyTokens
  | symbol name => place.atomTokens [⟨.symbol, name⟩]
  | quoted inner => place.atomTokens (Token.ofMark .quote '\'' :: inner.tokensAt .element)
  | cell left right => place.listTokens (left.tokensAt .element ++ right.tokensAt .rest)
  | number n => place.atomTokens [⟨.symbol, toString n⟩]
  | native op => place.atomTokens [⟨.symbol, placeholder op.kind⟩]
  | compound kind .. => place.atomTokens [⟨.symbol, placeholder kind⟩]
  | probe _ p _ => place.atomTokens [⟨.symbol, placeholder p.kind⟩]
  | stub kind _ => place.atomTokens [⟨.symbol, placeholder kind⟩]

namespace Token

theorem scan_atom (place : Place) {text : String} {tokens : List Token} {rest : List Char}
    (h : scan [] (text.toList ++ rest) = tokens ++ scan [] rest) :
    scan [] ((place.atom text).toList ++ rest) = place.atomTokens tokens ++ scan [] rest := by
  cases place with
  | element => exact h
  | rest =>
      have dot : scan [] (".".toList ++ ' ' :: (text.toList ++ rest)) =
          ⟨.symbol, "."⟩ :: scan [] (' ' :: (text.toList ++ rest)) :=
        scan_name (by decide) (breaks_cons (by simp [CharClass.of_space]))
      rw [Place.toList_atom_rest, List.cons_append, scan_blank CharClass.of_space, List.cons_append,
        List.cons_append]
      refine dot.trans ?_
      rw [scan_blank CharClass.of_space, h]
      rfl

theorem scan_atom_name (place : Place) {name : String} {rest : List Char}
    (readable : isReadable name = true) (hb : Breaks rest) :
    scan [] ((place.atom name).toList ++ rest) =
      place.atomTokens [⟨.symbol, name⟩] ++ scan [] rest :=
  scan_atom place (scan_name readable hb)

end Token

theorem Value.isReadable_placeholder (kind : CallKind) : isReadable (placeholder kind) = true := by
  cases kind <;> decide

theorem Value.breaks_textAt_rest (v : Value) {cs : List Char} (hb : Token.Breaks cs) :
    Token.Breaks ((v.textAt .rest).toList ++ cs) := by
  have apart : CharClass.of ' ' ≠ .letter := by simp [CharClass.of_space]
  cases v with
  | nil => exact hb
  | cell left right =>
      rw [textAt, Place.toList_list_rest]
      exact Token.breaks_cons apart
  | _ =>
      rw [textAt, Place.toList_atom_rest]
      exact Token.breaks_cons apart

/-- The text of a value at a place is scanned into the tokens of the value there. -/
theorem Value.scan_textAt (place : Place) (v : Value) (rest : List Char)
    (readable : ∀ name ∈ v.shownNames, isReadable name = true) (hb : Token.Breaks rest) :
    Token.scan [] ((v.textAt place).toList ++ rest) = v.tokensAt place ++ Token.scan [] rest :=
  match v with
  | nil => by
      cases place with
      | element => exact Token.scan_name (by decide) hb
      | rest => rfl
  | symbol name => Token.scan_atom_name place (readable name (by simp [shownNames])) hb
  | quoted inner => by
      have ih := scan_textAt .element inner rest readable hb
      refine Token.scan_atom place ?_
      have opened : ("'" ++ inner.textAt .element).toList = '\'' :: (inner.textAt .element).toList := by
        simp
      rw [opened, List.cons_append, Token.scan_mark CharClass.of_apostrophe, ih]
      rfl
  | cell left right => by
      have hl : ∀ name ∈ left.shownNames, isReadable name = true :=
        fun name member => readable name (by simp [shownNames, member])
      have hr : ∀ name ∈ right.shownNames, isReadable name = true :=
        fun name member => readable name (by simp [shownNames, member])
      -- The elements inside the parentheses, or the rest of them at the end of a list.
      have inside (more : List Char) (hm : Token.Breaks more) :
          Token.scan [] ((left.textAt .element ++ right.textAt .rest).toList ++ more) =
            left.tokensAt .element ++ right.tokensAt .rest ++ Token.scan [] more := by
        rw [String.toList_append, List.append_assoc,
          scan_textAt .element left _ hl (right.breaks_textAt_rest hm),
          scan_textAt .rest right more hr hm, List.append_assoc]
      cases place with
      | element =>
          have closing : Token.Breaks (')' :: rest) :=
            Token.breaks_cons (by simp [CharClass.of_closing])
          rw [textAt, Place.toList_list_element, List.cons_append, List.cons_append,
            Token.scan_mark CharClass.of_opening, List.append_assoc, List.singleton_append,
            inside _ closing, Token.scan_mark CharClass.of_closing]
          simp [tokensAt, Place.listTokens]
      | rest =>
          rw [textAt, Place.toList_list_rest, List.cons_append, Token.scan_blank CharClass.of_space,
            inside rest hb]
          rfl
  | number n => Token.scan_atom_name place (isReadable_toString n) hb
  | native op => Token.scan_atom_name place (isReadable_placeholder op.kind) hb
  | compound kind .. => Token.scan_atom_name place (isReadable_placeholder kind) hb
  | probe _ p _ => Token.scan_atom_name place (isReadable_placeholder p.kind) hb
  | stub kind _ => Token.scan_atom_name place (isReadable_placeholder kind) hb

theorem Value.scanText_text {v : Value} (readable : ∀ name ∈ v.shownNames, isReadable name = true) :
    Token.scanText v.text = v.tokensAt .element := by
  have h := scan_textAt .element v [] readable Token.breaks_nil
  rw [List.append_nil] at h
  rw [Token.scanText, text, h]
  simp [Token.scan, Token.flush]

/-! ## What the tokens derive -/

/-- The tokens at a place are read as the value: on their own, or as the last elements of a list. -/
def Place.Reads (place : Place) (tokens : List Token) (value : Value) : Prop :=
  match place with
  | element => Derives tokens value
  | rest => ∃ parts : List (List Token × Value), (∀ part ∈ parts, Derives part.1 part.2) ∧
      (parts.map Prod.fst).flatten = tokens ∧ Value.ofList (parts.map Prod.snd) = value

theorem Place.reads_atom (place : Place) {tokens : List Token} {value : Value}
    (h : Derives tokens value) : place.Reads (place.atomTokens tokens) (place.shownAtom value) := by
  cases place with
  | element => exact h
  | rest =>
      refine ⟨[([⟨.symbol, "."⟩], .symbol "."), (tokens, value)], ?_, ?_, rfl⟩
      · intro part member
        simp only [List.mem_cons, List.not_mem_nil, or_false] at member
        rcases member with rfl | rfl
        · exact .symbol "."
        · exact h
      · simp [atomTokens]

theorem Place.reads_list (place : Place) {first more : List Token} {left right : Value}
    (hl : Derives first left) (hr : rest.Reads more right) :
    place.Reads (place.listTokens (first ++ more)) (.cell left right) := by
  obtain ⟨parts, derived, rfl, rfl⟩ := hr
  have all : ∀ part ∈ (first, left) :: parts, Derives part.1 part.2 :=
    List.forall_mem_cons.mpr ⟨hl, derived⟩
  cases place with
  | element => exact Derives.list ((first, left) :: parts) all
  | rest => exact ⟨(first, left) :: parts, all, rfl, rfl⟩

/-- The tokens of a value derive the value that its text shows. -/
theorem Value.reads_tokensAt (place : Place) (v : Value) :
    place.Reads (v.tokensAt place) (v.normalAt place) :=
  match v with
  | nil => by
      cases place with
      | element => exact .symbol "nil"
      | rest => exact ⟨[], by simp, rfl, rfl⟩
  | symbol name => place.reads_atom (.symbol name)
  | quoted inner => place.reads_atom (.quote (reads_tokensAt .element inner))
  | cell left right =>
      place.reads_list (reads_tokensAt .element left) (reads_tokensAt .rest right)
  | number n => place.reads_atom (.symbol (toString n))
  | native op => place.reads_atom (.symbol (placeholder op.kind))
  | compound kind .. => place.reads_atom (.symbol (placeholder kind))
  | probe _ p _ => place.reads_atom (.symbol (placeholder p.kind))
  | stub kind _ => place.reads_atom (.symbol (placeholder kind))

/-! ## Normal forms -/

theorem Value.textDepthAt_shownAtom (place : Place) {v : Value} (h : 1 ≤ v.textDepthAt .element) :
    (place.shownAtom v).textDepthAt place = v.textDepthAt .element := by
  cases place with
  | element => rfl
  | rest =>
      simp only [Place.shownAtom, ofList, chain_cons, chain_nil, textDepthAt, Place.level]
      omega

/-- A value nests as deep as what its text shows. -/
theorem Value.textDepthAt_normalAt (place : Place) (v : Value) :
    (v.normalAt place).textDepthAt place = v.textDepthAt place :=
  match v with
  | nil => by cases place <;> rfl
  | symbol _ | number _ | native _ | compound .. | probe .. | stub .. =>
      textDepthAt_shownAtom place (Nat.le_refl 1)
  | quoted inner => by
      rw [normalAt, textDepthAt_shownAtom place (by simp [textDepthAt]), textDepthAt, textDepthAt,
        textDepthAt_normalAt .element inner]
  | cell left right => by
      rw [normalAt, textDepthAt, textDepthAt, textDepthAt_normalAt .element left,
        textDepthAt_normalAt .rest right]

/-- What a terminal adds to the elements of a list: nothing, or a dot and the terminal. -/
def Value.dotted (terminal : Value) : List Value :=
  if terminal.isNil then [] else [.symbol ".", terminal.normal]

theorem Value.normalAt_rest (v : Value) :
    v.normalAt .rest = .ofList (v.items.map normal ++ v.terminal.dotted) :=
  match v with
  | nil => rfl
  | cell left right => by
      rw [normalAt, normalAt_rest right]
      rfl
  | symbol _ | quoted _ | number _ | native _ | compound .. | probe .. | stub .. => rfl

/-- The text of a chain shows the list of its elements, with a dot before a terminal that is not
nil. -/
theorem Value.normal_of_isCell {v : Value} (h : v.isCell = true) :
    v.normal = .ofList (v.items.map normal ++ v.terminal.dotted) := by
  cases v with
  | cell left right =>
      rw [normal, normalAt, normalAt_rest]
      rfl
  | _ => cases h

/-- Printing a value and reading the text gives its normal form, whose text is the same. -/
theorem Value.parse_text {v : Value} {limit : Nat}
    (readable : ∀ name ∈ v.shownNames, isReadable name = true) (room : v.textDepth ≤ limit) :
    v.textWithin limit = .ok v.text ∧ Reader.parse limit v.text = .ok v.normal ∧
      v.normal.textWithin limit = .ok v.text := by
  have depth : v.normal.textDepth = v.textDepth := textDepthAt_normalAt .element v
  have derived : Derives (v.tokensAt .element) v.normal := reads_tokensAt .element v
  have read := Reader.read_of_derives derived (by omega : v.normal.textDepth ≤ limit) []
  rw [List.append_nil] at read
  refine ⟨if_pos room, ?_, ?_⟩
  · rw [Reader.parse, scanText_text readable, read]
  · rw [textWithin, if_pos (by omega), text_normal]

/-- Reading printed text is normalisation: the text of a value with readable symbols is read as its
normal form, which has the same text. So printing, reading and printing again changes nothing. -/
theorem Value.print_read_eq_normal (v : Value) (limit : Nat)
    (readable : ∀ name ∈ v.shownNames, isReadable name = true) (room : v.textDepth ≤ limit) :
    v.textWithin limit = .ok v.text ∧ Reader.parse limit v.text = .ok v.normal ∧
      v.normal.textWithin limit = .ok v.text ∧
      (Reader.parse limit v.text).bind (Value.textWithin limit) = .ok v.text ∧
      (v.isCell = true → v.normal = .ofList (v.items.map normal ++ v.terminal.dotted)) := by
  obtain ⟨printed, read, again⟩ := parse_text readable room
  refine ⟨printed, read, again, ?_, normal_of_isCell⟩
  rw [read]
  exact again

/-- A dotted chain with nil, a quote and a callable in it. -/
theorem Value.print_read_eq_normal_dotted :
    Reader.parse 3 (Value.text (.cell .nil (.cell (.quoted (.symbol "a")) (.native .car)))) =
      .ok (.ofList [.symbol "nil", .quoted (.symbol "a"), .symbol ".", .symbol "#<function>"]) :=
  (Value.print_read_eq_normal (.cell .nil (.cell (.quoted (.symbol "a")) (.native .car))) 3
    (by decide) (by decide)).2.1

end MiniLisp
