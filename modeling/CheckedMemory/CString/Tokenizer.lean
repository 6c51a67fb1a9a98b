import CheckedMemory.CString.Basic

/-!
# Splitting a string in place

A tokenizer walks a string and hands out its tokens as pointers into the buffer.  The delimiter
that ends a token is overwritten with a terminator, so each token is a string of its own.  The
delimiters may differ from call to call; once no token is left, none ever is.
-/

namespace CheckedMemory

/-- A text that is being split. -/
structure Tokenizer (P : ElemType → Type) where
  /-- The whole text. -/
  text : P .uint8
  /-- Where the rest of the text starts, or nothing once it is used up. -/
  cursor : Option (P .uint8)

namespace Tokenizer

open Operation

variable {P Q : ElemType → Type} [ArrayLike P] [ArrayLike Q]

/-- The delimiters in front, the token after them, and what follows it. -/
def split (delims : List UInt8) (text : Runs UInt8) : Runs UInt8 × Runs UInt8 × Runs UInt8 :=
  let blank := text.takeWhile delims.contains
  let rest := text.drop blank.length
  let token := rest.takeWhile (!delims.contains ·)
  (blank, token, rest.drop token.length)

/-- Starts on a string. -/
def new (text : P .uint8) : Operation (Tokenizer P) := do
  discard (CString.contents text)
  return ⟨text, some text⟩

/-- The next token, and the tokenizer after it. -/
def next (t : Tokenizer P) (delims : Q .uint8) : Operation (Option (P .uint8) × Tokenizer P) := do
  let ds ← CString.contents delims
  match t.cursor with
  | none => return (none, t)
  | some p =>
    let text := CString.beforeTerminator (← CString.window p)
    let (blank, token, rest) := split ds.elements text
    if token.isEmpty then
      return (none, { t with cursor := none })
    else
      let first := ArrayLike.offset p (Int64.ofNat blank.length)
      if rest.isEmpty then
        return (some first, { t with cursor := none })
      else
        let stop := blank.length + token.length
        storeBytes (ArrayLike.address p + UInt64.ofNat stop) CString.terminator
        return (some first, { t with cursor := some (ArrayLike.offset p (Int64.ofNat (stop + 1))) })

end Tokenizer

end CheckedMemory
