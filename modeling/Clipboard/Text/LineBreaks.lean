/-!
# Line breaks

A text in canonical form ends its lines with LF alone.  `unify` brings any text
into that form in two passes over the whole text: first every CR LF becomes LF,
then every CR that is left does.  `expand` writes CR LF for every LF.

* `unifyText?` answers `none` for a text without CR, which is left as it is.
-/

namespace Clipboard.LineBreaks

/-- Every CR LF made into LF, after the characters `done`, latest first. -/
def joinFrom (done : List Char) : List Char → List Char
  | [] => done.reverse
  | '\r' :: '\n' :: rest => joinFrom ('\n' :: done) rest
  | c :: rest => joinFrom (c :: done) rest

/-- Every CR LF made into LF. -/
def join (text : List Char) : List Char := joinFrom [] text

/-- A CR made into LF. -/
def soften (c : Char) : Char := if c = '\r' then '\n' else c

/-- The text with LF for every line break. -/
def unify (text : List Char) : List Char := (join text).map soften

/-- The text with CR LF for every LF. -/
def expand (text : List Char) : List Char :=
  text.flatMap fun c => if c = '\n' then ['\r', '\n'] else [c]

/-- The canonical form of a text that is not in it. -/
def unifyText? (text : String) : Option String :=
  if text.toList.contains '\r' then some (String.ofList (unify text.toList)) else none

/-- The canonical form of a text. -/
def unifyText (text : String) : String := (unifyText? text).getD text

end Clipboard.LineBreaks
