/-!
Slugs: names reduced to lower-case ASCII letters and digits, with a hyphen wherever something
else stood between two of them.
-/

namespace ProForma.Text

/-- The maximal runs of characters in `keep`, in order. -/
def runs (keep : Char → Bool) : List Char → List (List Char)
  | [] => []
  | c :: cs =>
    if keep c then
      match cs, runs keep cs with
      | d :: _, run :: rest => if keep d then (c :: run) :: rest else [c] :: run :: rest
      | _, rest => [c] :: rest
    else runs keep cs

/-- `Cost of Sales (Total)` becomes `cost-of-sales-total`. -/
def slug (name : String) : String :=
  "-".intercalate
    ((runs Char.isAlphanum name.toList).map fun run => String.ofList (run.map Char.toLower))

end ProForma.Text
