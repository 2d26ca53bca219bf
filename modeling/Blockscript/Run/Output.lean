/-!
What a program has written, in bytes. An output may have room for a limited number
of bytes only; a text that does not fit is taken as far as it fits.
-/
namespace Blockscript

structure Output where
  written : ByteArray
  room : Option Nat

namespace Output

def empty (room : Option Nat) : Output := ⟨.empty, room⟩

def write (o : Output) (text : String) : Output × Bool :=
  let bytes := text.toUTF8
  match o.room with
  | none => (⟨o.written ++ bytes, none⟩, true)
  | some room =>
    if bytes.size ≤ room then (⟨o.written ++ bytes, some (room - bytes.size)⟩, true)
    else (⟨o.written ++ bytes.extract 0 room, some 0⟩, false)

/-- The text of the bytes from `start` on. A character cut off at the end, of which
    at most three bytes are there, is shown as U+FFFD. -/
def textFrom (o : Output) (start : Nat) : String :=
  let size := o.written.size
  let decoded := fun missing => String.fromUTF8? (o.written.extract start (size - missing))
  match decoded 0, [1, 2, 3].findSome? decoded with
  | some text, _ => text
  | none, some text => text.push '\ufffd'
  | none, none => ""

def text (o : Output) : String := o.textFrom 0

end Output

end Blockscript
