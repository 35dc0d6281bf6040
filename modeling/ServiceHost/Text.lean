import ServiceHost.Text.Printable
/-! How lengths of time, names and records are written, and how the numbers of tasks are masked. -/

namespace ServiceHost

/-- A length of time, exact to the nanosecond. -/
structure Duration where
  nanos : Nat
  deriving DecidableEq, Repr, Inhabited

namespace Duration

def ofParts (seconds nanos : Nat) : Duration := ⟨seconds * 1000000000 + nanos⟩

def ofMillis (millis : Nat) : Duration := ⟨millis * 1000000⟩

def padded (width n : Nat) : List Char :=
  let digits := Nat.toDigits 10 n
  List.replicate (width - digits.length) '0' ++ digits

/-- The fraction `n / 10 ^ width` after the point, without trailing zeros; empty if it is zero. -/
def fraction (width n : Nat) : List Char :=
  match ((padded width n).reverse.dropWhile (· == '0')).reverse with
  | [] => []
  | digits => '.' :: digits

def inUnit (width : Nat) (unit : String) (n : Nat) : String :=
  let whole := Nat.pow 10 width
  String.ofList (Nat.toDigits 10 (n / whole) ++ fraction width (n % whole)) ++ unit

/-- A duration is written in the largest of `s`, `ms`, `µs` and `ns` it reaches, so that its whole
part is not zero unless the duration is. -/
def text (d : Duration) : String :=
  if d.nanos ≥ 1000000000 then inUnit 9 "s" d.nanos
  else if d.nanos ≥ 1000000 then inUnit 6 "ms" d.nanos
  else if d.nanos ≥ 1000 then inUnit 3 "µs" d.nanos
  else inUnit 0 "ns" d.nanos

end Duration

end ServiceHost

namespace ServiceHost.Text

/-! ### Between double quotes

Quotes, backslashes and characters which cannot be shown are escaped, everything else stands for
itself. -/

def codePoint (c : Char) : List Char :=
  ['\\', 'u', '\x7b'] ++ Nat.toDigits 16 c.toNat ++ ['\x7d']

def escape (c : Char) : List Char :=
  if c = '\x00' then ['\\', '0']
  else if c = '\t' then ['\\', 't']
  else if c = '\r' then ['\\', 'r']
  else if c = '\n' then ['\\', 'n']
  else if c = '\\' then ['\\', '\\']
  else if c = '"' then ['\\', '"']
  else if isExtender c || isUnprintable c then codePoint c
  else [c]

def quote (s : String) : String :=
  String.ofList ('"' :: s.toList.flatMap escape ++ ['"'])

def quoteList (names : List String) : String :=
  "[" ++ ", ".intercalate (names.map quote) ++ "]"

/-! ### Masked numbers

Some texts name a task by its number. The numbers differ from run to run, so they are masked
wherever such a text is shown. -/

def dropFront? : List Char → List Char → Option (List Char)
  | [], s => some s
  | _ :: _, [] => none
  | c :: front, d :: s => if c = d then dropFront? front s else none

theorem length_of_dropFront? {front s rest : List Char} (h : dropFront? front s = some rest) :
    rest.length ≤ s.length := by
  induction front generalizing s with
  | nil => simp_all [dropFront?]
  | cons c front ih =>
    cases s with
    | nil => simp [dropFront?] at h
    | cons d s =>
      simp only [dropFront?] at h
      split at h
      · exact Nat.le_trans (ih h) (by simp)
      · simp at h

def taskNumber? (s : List Char) : Option (List Char) :=
  match dropFront? "task ".toList s with
  | none => none
  | some rest =>
    let tail := rest.dropWhile Char.isDigit
    if tail.length < rest.length && (dropFront? " panicked".toList tail).isSome then some tail
    else none

theorem length_of_taskNumber? {s tail : List Char} (h : taskNumber? s = some tail) :
    tail.length < s.length := by
  simp only [taskNumber?] at h
  split at h
  · simp at h
  · next rest hrest =>
    split at h
    · next hc =>
      cases h
      have := length_of_dropFront? hrest
      simp only [Bool.and_eq_true, decide_eq_true_eq] at hc
      omega
    · simp at h

/-- Writes `N` for the number in each `task 12 panicked`. -/
def maskTasks (s : List Char) : List Char :=
  match _h : taskNumber? s with
  | some tail => "task N".toList ++ maskTasks tail
  | none =>
    match s with
    | [] => []
    | c :: rest => c :: maskTasks rest
termination_by s.length
decreasing_by
  · exact length_of_taskNumber? ‹_›
  · simp

def masked (s : String) : String := String.ofList (maskTasks s.toList)

end ServiceHost.Text

namespace ServiceHost.Json

/-! ### JSON without blanks -/

/-- How one character is written between double quotes: only quotes, backslashes and controls are
escaped, controls by a letter if they have one. -/
def escape (c : Char) : List Char :=
  if c = '"' then ['\\', '"']
  else if c = '\\' then ['\\', '\\']
  else if c = '\x08' then ['\\', 'b']
  else if c = '\t' then ['\\', 't']
  else if c = '\n' then ['\\', 'n']
  else if c = '\x0c' then ['\\', 'f']
  else if c = '\r' then ['\\', 'r']
  else if c.toNat < 0x20 then
    ['\\', 'u', '0', '0', Nat.digitChar (c.toNat / 16), Nat.digitChar (c.toNat % 16)]
  else [c]

def text (s : String) : String := String.ofList ('"' :: s.toList.flatMap escape ++ ['"'])

def list (items : List String) : String := "[" ++ ",".intercalate items ++ "]"

def record (fields : List (String × String)) : String :=
  "\x7b" ++ ",".intercalate (fields.map fun (key, item) => text key ++ ":" ++ item) ++ "\x7d"

end ServiceHost.Json
