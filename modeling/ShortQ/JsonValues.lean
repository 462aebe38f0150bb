import Mathlib.Data.Int.Notation
import ShortQ.GoText

/-! # JSON values

What `encoding/json` finds in a text and stores in a Go variable. -/
namespace JsonValues

open GoText

/-- A scanned JSON value. A number keeps its value when the literal is a plain integer, and a
string keeps the text it denotes and whether an escape occurs in it. -/
inductive Json where
  | null
  | bool (value : Bool)
  | number (integer : Option ℤ)
  | string (text : Str) (escaped : Bool)
  | array (items : List Json)
  | object (members : List (Str × Json))

/-- `foldName`, as far as a result made of ASCII letters can tell: only U+017F and U+212A
fold to one. -/
def foldRune (r : Rune) : Str :=
  match r.value with
  | none => [0xEF, 0xBF, 0xBD]
  | some v =>
    if 97 ≤ v && v ≤ 122 then [UInt8.ofNat (v - 32)]
    else if v = 0x17F then lit "S"
    else if v = 0x212A then lit "K"
    else r.bytes

def foldName (s : Str) : Str := (runes s).flatMap foldRune

/-- The struct field a key is stored in: the exact name first, then the folded one. -/
def fieldNamed {α : Type} (fields : List α) (name : α → Str) (key : Str) : Option α :=
  (fields.find? fun f => name f = key).orElse fun _ =>
    fields.find? fun f => foldName (name f) = foldName key

def int64Max : ℤ := 9223372036854775807

def intValue (current : ℤ) : Json → Option ℤ
  | .null => some current
  | .number (some v) => if -int64Max - 1 ≤ v ∧ v ≤ int64Max then some v else none
  | _ => none

def stringValue (current : Str) : Json → Option Str
  | .null => some current
  | .string text _ => some text
  | _ => none

def boolValue (current : Bool) : Json → Option Bool
  | .null => some current
  | .bool b => some b
  | _ => none

/-- Whether `json.Marshal` escapes something in the text. -/
def escapes (s : Str) : Bool :=
  (runes s).any fun r =>
    match r.value with
    | none => true
    | some v => v < 32 || v = 34 || v = 92 || v = 38 || v = 60 || v = 62 || v = 0x2028 || v = 0x2029

def jsonString (s : Str) : Json := .string (toValid s) (escapes s)

/-- `json.Unmarshal` into a struct: keys of no field are passed over. -/
def storeObject {α β : Type} (fieldOf : Str → Option β) (assign : α → β → Json → Option α)
    (current : α) : Json → Option α
  | .null => some current
  | .object members => members.foldlM (fun c m =>
      match fieldOf m.1 with
      | none => some c
      | some f => assign c f m.2) current
  | _ => none

end JsonValues
