import Blockscript.Token.Cut

/-!
The tokens of a source, taken one by one or all at once. Both ways share one
position: what was taken one by one is not scanned again. The full list ends with
the end of the source and is kept; only the scan that makes it has errors to tell.
-/
namespace Blockscript

structure TokenStream where
  rest : List Char
  line : Nat
  scanned : Option (List Token)

namespace TokenStream

def ofSource (source : String) : TokenStream := ⟨source.toList, 1, none⟩

/-- The first outcome in `rest`, if any is left, with the line and the text after it.
    Every piece has at least one character, so the length of `rest` is enough fuel. -/
def nextWithin : Nat → Nat → List Char → Option (Except Error Token) × Nat × List Char
  | fuel + 1, line, c :: cs =>
    let cut := Cut.first c cs
    let line := cut.lineAfter line
    match cut.outcome line with
    | some outcome => (some outcome, line, cut.rest)
    | none => nextWithin fuel line cut.rest
  | _, line, rest => (none, line, rest)

def next (s : TokenStream) : Option (Except Error Token) × TokenStream :=
  let (outcome, line, rest) := nextWithin s.rest.length s.line s.rest
  (outcome, { s with rest, line })

def allWithin : Nat → Nat → List (Except Error Token) → List Char →
    List (Except Error Token) × Nat
  | fuel + 1, line, found, c :: cs =>
    let cut := Cut.first c cs
    let line := cut.lineAfter line
    allWithin fuel line ((cut.outcome line).toList ++ found) cut.rest
  | _, line, found, _ => (found.reverse, line)

def tokensOf (outcomes : List (Except Error Token)) : List Token :=
  outcomes.filterMap fun
    | .ok token => some token
    | .error _ => none

def errorsOf (outcomes : List (Except Error Token)) : List Error :=
  outcomes.filterMap fun
    | .ok _ => none
    | .error e => some e

/-- The tokens that are left, closed by the end of the source, with the errors
    among them. A second scan gives the same tokens and no errors. -/
def scan (s : TokenStream) : (List Token × List Error) × TokenStream :=
  match s.scanned with
  | some tokens => ((tokens, []), s)
  | none =>
    let (outcomes, line) := allWithin s.rest.length s.line [] s.rest
    let tokens := tokensOf outcomes ++ [⟨.endOfFile, "", line⟩]
    ((tokens, errorsOf outcomes), ⟨[], line, some tokens⟩)

end TokenStream

end Blockscript
