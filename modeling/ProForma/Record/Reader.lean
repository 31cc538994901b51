import ProForma.Fault
import ProForma.Json.Basic

/-!
Reading records out of JSON. A record is an object with named members, or a list of its fields in
their order. Of several faults the one that stands first in the record is reported; missing fields
come after everything that is there.
-/

namespace ProForma.Record

/-- What the reading of a value gives. -/
abbrev Read (β : Type) := Json → Except RecordFault β

/-! ### Values -/

def string : Read String
  | .text s => .ok s
  | _ => .error .malformed

def flag : Read Bool
  | .bool b => .ok b
  | _ => .error .malformed

/-- Any number, rounded to the nearest binary64 number. -/
def amount : Read Float
  | .integer n => .ok (Float.ofInt n)
  | .real x => .ok x
  | _ => .error .malformed

def integer (least greatest : Int) : Read Int
  | .integer n => if least ≤ n ∧ n ≤ greatest then .ok n else .error .malformed
  | _ => .error .malformed

/-- A count that is written with at most so many bits. -/
def natural (bits : Nat) (j : Json) : Except RecordFault Nat := do
  let n ← integer 0 (Int.ofNat (Nat.pow 2 bits) - 1) j
  pure n.toNat

def date (j : Json) : Except RecordFault Date := do
  (Date.ofText (← string j)).mapError .date

def nullable {β : Type} (read : Read β) : Read (Option β)
  | .null => .ok none
  | j => do
    let b ← read j
    pure (some b)

def listOf {β : Type} (read : Read β) : Read (List β)
  | .list items => items.mapM read
  | _ => .error .malformed

/-- One of several words. -/
def wordOf {β : Type} [Tagged β] (s : String) : Except RecordFault β :=
  match Tagged.ofTag? s with
  | some b => .ok b
  | none => .error (.unknownVariant s (Tagged.tags β))

/-- Whether a record is part of a record of one of several kinds. -/
inductive Depth where
  | outer
  | inner
deriving DecidableEq

/-- The value says nothing: it is null, or inside a record of one of several kinds an empty
object. -/
def Depth.isVoid : Depth → Json → Bool
  | _, .null => true
  | .inner, .object [] => true
  | _, _ => false

/-- A word, or an object with the word as its only key and a value that says nothing. -/
def wordAt {β : Type} [Tagged β] (depth : Depth) : Read β
  | .text s => wordOf s
  | .object [(s, value)] => do
    let b ← wordOf s
    if depth.isVoid value then pure b else throw .malformed
  | _ => .error .malformed

def word {β : Type} [Tagged β] : Read β :=
  wordAt .outer

/-! ### Fields -/

/-- The parts of a record that are there, with the names of their fields. -/
structure Members where
  entries : List (String × Json)
  /-- The record is a list, in which only fields at the end can be missing. -/
  isPositional : Bool

/-- A value that is put together from fields, or a fault and how many members stand before it. -/
def Reading (β : Type) := Except (Nat × RecordFault) β

namespace Reading

variable {β γ : Type}

def map (f : β → γ) : Reading β → Reading γ
  | .ok b => .ok (f b)
  | .error fault => .error fault

/-- Reads both parts. The fault that stands first counts; of two faults at one place, the left. -/
def both : Reading (β → γ) → Reading β → Reading γ
  | .ok f, .ok b => .ok (f b)
  | .ok _, .error right => .error right
  | .error left, .ok _ => .error left
  | .error left, .error right => .error (if right.1 < left.1 then right else left)

instance : Applicative Reading where
  pure := .ok
  map := map
  seq f b := both f (b ())

/-- The value without the place of its fault. -/
def result : Reading β → Except RecordFault β
  | .ok b => .ok b
  | .error (_, fault) => .error fault

end Reading

namespace Members

variable {β : Type}

/-- The members with a name, and how many stand before each. -/
def named (ms : Members) (name : String) : List (Nat × Json) :=
  ms.entries.zipIdx.filterMap fun (entry, place) =>
    if entry.1 = name then some (place, entry.2) else none

/-- Reads a field if it is there, and `absent` otherwise. A field may not be there twice. -/
def field (ms : Members) (name : String) (read : Read β) (absent : Reading β) : Reading β :=
  match ms.named name with
  | [] => absent
  | (place, j) :: others =>
    match read j, others with
    | .error fault, _ => .error (place, fault)
    | .ok b, [] => .ok b
    | .ok _, (again, _) :: _ => .error (again, .malformed)

/-- A fault after everything that is there. -/
def missing (ms : Members) (name : String) : Reading β :=
  .error (ms.entries.length, if ms.isPositional then .malformed else .missingField name)

/-- A field that has to be there. -/
def required (ms : Members) (name : String) (read : Read β) : Reading β :=
  ms.field name read (ms.missing name)

/-- A field with a value to fall back on. -/
def optional (ms : Members) (name : String) (read : Read β) (fallback : β) : Reading β :=
  ms.field name read (pure fallback)

/-- A field that may be null, or missing. -/
def nullable (ms : Members) (name : String) (read : Read β) : Reading (Option β) :=
  ms.optional name (Record.nullable read) none

/-- A field that may be null, or missing from an object. -/
def bare (ms : Members) (name : String) (read : Read β) : Reading (Option β) :=
  ms.field name (Record.nullable read) (if ms.isPositional then ms.missing name else pure none)

end Members

/-! ### Records -/

/-- Reads a record with these fields. A list may not have more items than there are fields. -/
def record {β : Type} (names : List String) (fields : Members → Reading β) : Read β
  | .object members => (fields ⟨members, false⟩).result
  | .list items => do
    let b ← (fields ⟨names.zip items, true⟩).result
    if items.length ≤ names.length then pure b else throw .malformed
  | _ => .error .malformed

/-- The reader of a kind of record. -/
def variant {β : Type} (variants : List (String × Read β)) : Json → Except RecordFault (Read β)
  | .text s =>
    match variants.lookup s with
    | some read => .ok read
    | none => .error (.unknownVariant s (variants.map Prod.fst))
  | _ => .error .malformed

/-- Reads a record of one of several kinds. The kind is a member of the object, or the first item
of the list. -/
def tagged {β : Type} (tag : String) (variants : List (String × Read β)) (j : Json) :
    Except RecordFault β :=
  if j.isReadable then
    match j with
    | .object members =>
      match members.filter (·.1 = tag) with
      | [] => .error (.missingField tag)
      | [(_, kind)] => do
        let read ← variant variants kind
        read (.object (members.filter (·.1 ≠ tag)))
      | _ => .error .malformed
    | .list [] => .error (.missingField tag)
    | .list (kind :: items) => do
      let read ← variant variants kind
      read (.list items)
    | _ => .error .malformed
  else .error .malformed

/-- A kind of record without fields. Objects may have members, which mean nothing. -/
def bare {β : Type} (b : β) : Read β
  | .object _ => .ok b
  | .list [] => .ok b
  | _ => .error .malformed

/-! ### Writing -/

def ofOption {β : Type} (write : β → Json) : Option β → Json
  | some b => write b
  | none => .null

def ofTagged {β : Type} [Tagged β] (b : β) : Json :=
  .text (Tagged.tag b)

end ProForma.Record
