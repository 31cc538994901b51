/-!
JSON values. Whole numbers that fit 64 bits are kept apart from all other numbers, and members
stand in the order of the text until `normalize` sorts them.
-/

namespace ProForma

inductive Json where
  | null
  | bool (value : Bool)
  | integer (value : Int)
  | real (value : Float)
  | text (value : String)
  | list (items : List Json)
  | object (members : List (String × Json))
  /-- A well-formed text that stands for no value: a number beyond binary64, a string with half of
  a surrogate pair, or an object with such a key. It can be skipped but not read. -/
  | unreadable
deriving Inhabited

namespace Json

mutual

/-- No part of the value is unreadable. -/
def isReadable : Json → Bool
  | .unreadable => false
  | .list items => areReadable items
  | .object members => membersReadable members
  | _ => true

def areReadable : List Json → Bool
  | [] => true
  | item :: items => item.isReadable && areReadable items

def membersReadable : List (String × Json) → Bool
  | [] => true
  | (_, value) :: members => value.isReadable && membersReadable members

end

mutual

/-- How many lists and objects stand inside one another. -/
def depth : Json → Nat
  | .list items => itemsDepth items + 1
  | .object members => membersDepth members + 1
  | _ => 0

def itemsDepth : List Json → Nat
  | [] => 0
  | item :: items => max item.depth (itemsDepth items)

def membersDepth : List (String × Json) → Nat
  | [] => 0
  | (_, value) :: members => max value.depth (membersDepth members)

end

/-- Puts a member into a list sorted by key, in place of one with the same key. -/
def insertMember (key : String) (value : Json) : List (String × Json) → List (String × Json)
  | [] => [(key, value)]
  | (k, v) :: members =>
    if key < k then (key, value) :: (k, v) :: members
    else if key = k then (key, value) :: members
    else (k, v) :: insertMember key value members

mutual

/-- Sorts the members of every object by key. Of members with one key the last counts. -/
def normalize : Json → Json
  | .list items => .list (normalizeItems items)
  | .object members => .object (normalizeMembers [] members)
  | other => other

def normalizeItems : List Json → List Json
  | [] => []
  | item :: items => item.normalize :: normalizeItems items

def normalizeMembers (sorted : List (String × Json)) : List (String × Json) → List (String × Json)
  | [] => sorted
  | (key, value) :: members => normalizeMembers (insertMember key value.normalize sorted) members

end

/-- The first member with a key. -/
def member? (key : String) : Json → Option Json
  | .object members => members.lookup key
  | _ => none

def text? : Json → Option String
  | .text s => some s
  | _ => none

end Json

end ProForma
