/-!
# Quoted text

A text between double quotes. A backslash begins an escape, which names one
character by a letter or by `u` and four hexadecimal digits. Blanks around the
quotes are skipped. Main statement: a text without quotes and backslashes
stands for itself.
-/

namespace StakeLock.Text.Quoted

def hexDigits : List Char := "0123456789abcdef".toList

def hexValue? (c : Char) : Option Nat := hexDigits.findIdx? (· == c.toLower)

/-- The character of four hexadecimal digits. Halves of surrogate pairs are no characters. -/
def ofHex? (p q r s : Char) : Option Char := do
  let n := (((← hexValue? p) * 16 + (← hexValue? q)) * 16 + (← hexValue? r)) * 16 + (← hexValue? s)
  if n.isValidChar then some (Char.ofNat n) else none

/-- The character that a letter names after a backslash. -/
def ofLetter? : Char → Option Char
  | '"' => some '"'
  | '\\' => some '\\'
  | '/' => some '/'
  | 'b' => some '\x08'
  | 'f' => some '\x0c'
  | 'n' => some '\n'
  | 'r' => some '\r'
  | 't' => some '\t'
  | _ => none

/-- The characters before the closing quote, and what follows it. -/
def content? : List Char → Option (List Char × List Char)
  | [] => none
  | '"' :: rest => some ([], rest)
  | '\\' :: 'u' :: p :: q :: r :: s :: rest => do
    let c ← ofHex? p q r s
    let (cs, rest) ← content? rest
    return (c :: cs, rest)
  | '\\' :: c :: rest => do
    let c ← ofLetter? c
    let (cs, rest) ← content? rest
    return (c :: cs, rest)
  | c :: rest => do
    let (cs, rest) ← content? rest
    return (c :: cs, rest)

def decode? (cs : List Char) : Option (List Char) := do
  match cs.dropWhile Char.isWhitespace with
  | '"' :: cs =>
    let (content, rest) ← content? cs
    if rest.all Char.isWhitespace then some content else none
  | _ => none

theorem content?_plain {cs : List Char} (rest : List Char) (h : ∀ c ∈ cs, c ≠ '"' ∧ c ≠ '\\') :
    content? (cs ++ '"' :: rest) = some (cs, rest) := by
  induction cs with
  | nil => rfl
  | cons c cs ih =>
    have hc := h c List.mem_cons_self
    have hcs := ih fun d hd => h d (List.mem_cons_of_mem c hd)
    rw [List.cons_append, content?] <;> simp_all

theorem decode?_plain {cs : List Char} (h : ∀ c ∈ cs, c ≠ '"' ∧ c ≠ '\\') :
    decode? ('"' :: cs ++ ['"']) = some cs := by
  have hw : ¬Char.isWhitespace '"' = true := by decide
  have hd : ('"' :: (cs ++ ['"'])).dropWhile Char.isWhitespace = '"' :: (cs ++ ['"']) := by
    rw [List.dropWhile_cons, if_neg hw]
  rw [List.cons_append, decode?, hd]
  show (content? (cs ++ ['"'])).bind _ = some cs
  rw [content?_plain [] h]
  rfl

end StakeLock.Text.Quoted
