/-!
Types whose values are written as fixed words.
-/

namespace ProForma

class Tagged (β : Type) where
  /-- The values in the order in which they are listed to readers. -/
  all : List β
  tag : β → String

namespace Tagged

variable {β : Type} [Tagged β]

def ofTag? (text : String) : Option β :=
  (all : List β).find? fun b => tag b == text

def tags (β : Type) [Tagged β] : List String :=
  (all : List β).map tag

end Tagged

end ProForma
