/-!
# Upper case for ASCII keywords

Keywords are compared in upper case. Besides the letters a to z there are ten characters whose
upper case is made of ASCII letters; no other character can take part in a keyword, so it is kept.
-/

namespace MiniLisp.Text

/-- The characters beyond ASCII whose upper case is ASCII. -/
def upperExtras : List (Char × List Char) :=
  [('ß', ['S', 'S']), ('ı', ['I']), ('ſ', ['S']), ('ﬀ', ['F', 'F']), ('ﬁ', ['F', 'I']),
   ('ﬂ', ['F', 'L']), ('ﬃ', ['F', 'F', 'I']), ('ﬄ', ['F', 'F', 'L']), ('ﬅ', ['S', 'T']),
   ('ﬆ', ['S', 'T'])]

def upperChar (c : Char) : List Char :=
  match upperExtras.lookup c with
  | some upper => upper
  | none => [c.toUpper]

/-- `text` in upper case as far as it can be a keyword. -/
def upper (text : String) : String := String.ofList (text.toList.flatMap upperChar)

end MiniLisp.Text
